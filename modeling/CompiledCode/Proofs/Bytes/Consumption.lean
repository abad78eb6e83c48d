import CompiledCode.Bytes.Varint
import CompiledCode.Proofs.Bytes.Reading
import Mathlib.Algebra.BigOperators.Group.List.Basic
import Mathlib.Algebra.Ring.Nat

/-!
A reading pays for its answer with the bytes that it takes. What the answers of a sequence are worth
is at most what its readings take together, and so a small input cannot give a large answer.
-/

namespace CompiledCode

namespace Read

/-- Every answer is worth at most the bytes that are taken for it. -/
def PaysFor {α : Type} (worth : α → Nat) (read : Read α) : Prop :=
  ∀ (cursor next : Cursor) (a : α), read cursor = .ok a next →
    worth a + next.rest.length ≤ cursor.rest.length

section Sequences

variable {α β : Type} {worth : α → Nat}

theorem pure_paysFor {a : α} (worthless : worth a = 0) : PaysFor worth (pure a : Read α) := by
  intro cursor next b success
  obtain ⟨rfl, rfl⟩ := pure_eq_ok.mp success
  omega

theorem throw_paysFor (failure : ReadError) : PaysFor worth (throw failure : Read α) := by
  intro cursor next a success
  cases success

/-- The rest of a sequence pays for what the first reading has not paid for. -/
theorem bind_paysFor {earlier : β → Nat} {read : Read β} {next : β → Read α}
    (first : PaysFor earlier read)
    (second : ∀ b, PaysFor (fun a => worth a - earlier b) (next b)) :
    PaysFor worth (read >>= next) := by
  intro cursor last a success
  obtain ⟨b, middle, firstRead, rest⟩ := bind_eq_ok.mp success
  have firstPaid := first cursor middle b firstRead
  have restPaid := second b middle last a rest
  dsimp only at restPaid
  omega

theorem map_paysFor {read : Read β} {f : β → α} (pays : PaysFor (fun b => worth (f b)) read) :
    PaysFor worth (f <$> read) := by
  rw [map_eq_pure_bind]
  exact bind_paysFor pays fun b => pure_paysFor (Nat.sub_self _)

theorem PaysFor.of_le {less : α → Nat} {read : Read α} (pays : PaysFor worth read)
    (atMost : ∀ a, less a ≤ worth a) : PaysFor less read := by
  intro cursor next a success
  have paid := pays cursor next a success
  have bound := atMost a
  omega

theorem repeated_paysFor {item : Read α} (pays : PaysFor worth item) (count : Nat) :
    PaysFor (fun items => (items.map worth).sum) (repeated item count) := by
  induction count with
  | zero => exact pure_paysFor rfl
  | succ count inductionHypothesis =>
    refine bind_paysFor pays fun first => bind_paysFor inductionHypothesis fun rest => ?_
    apply pure_paysFor
    rw [List.map_cons, List.sum_cons]
    omega

end Sequences

theorem byte_paysFor : PaysFor (fun _ => 1) byte := by
  intro cursor next letter success
  rw [Nat.add_comm]
  exact byte_shortens success

theorem bytes_paysFor (count : Nat) : PaysFor List.length (bytes count) := by
  intro cursor next data success
  unfold bytes at success
  split at success
  · cases success
    rw [← List.length_append, List.take_append_drop]
  · cases success

end Read

namespace Varint

theorem word_paysFor : word.PaysFor fun _ => 1 := by
  intro cursor next value success
  rw [Nat.add_comm]
  exact wordFrom_shortens success

theorem natural_paysFor : natural.PaysFor fun _ => 1 := by
  intro cursor next number success
  rw [Nat.add_comm]
  exact natural_shortens success

theorem count_paysFor : count.PaysFor fun _ => 1 := Read.map_paysFor word_paysFor

end Varint

end CompiledCode
