import Mathlib

namespace HashChain

variable {E H : Type*} (prev hash : E → H)

/-- A log that starts at `genesis` and ends at its last index, the tip. -/
inductive Linked (genesis : H) : List E → H → Prop
  | nil : Linked genesis [] genesis
  | snoc {es : List E} {tip : H} {e : E} : Linked genesis es tip → prev e = tip → Linked genesis (es ++ [e]) (hash e)

/-- The tip a log ends at: the hash of its last entry. -/
def tipOf (genesis : H) (es : List E) : H := (es.getLast?.map hash).getD genesis

@[simp] theorem tipOf_nil (genesis : H) : tipOf hash genesis [] = genesis := rfl

@[simp] theorem tipOf_snoc (genesis : H) (es : List E) (e : E) : tipOf hash genesis (es ++ [e]) = hash e := by
  simp [tipOf]

namespace Linked

variable {prev hash} {genesis tip : H} {es fs : List E}

theorem tip_eq (linked : Linked prev hash genesis es tip) : tip = tipOf hash genesis es := by
  cases linked with
  | nil => rfl
  | snoc _ _ => exact (tipOf_snoc hash genesis _ _).symm

/-- Every entry names the tip of the log before it. -/
theorem prev_eq (linked : Linked prev hash genesis es tip) {i : Nat} {e : E} (here : es[i]? = some e) :
    prev e = tipOf hash genesis (es.take i) := by
  induction linked with
  | nil => simp at here
  | @snoc before last entry linked named ih =>
    by_cases inside : i < before.length
    · rw [List.getElem?_append_left inside] at here
      rw [List.take_append_of_le_length inside.le]
      exact ih here
    · have bound : i < (before ++ [entry]).length := (List.getElem?_eq_some_iff.mp here).1
      rw [List.length_append, List.length_singleton] at bound
      have last : i = before.length := by omega
      subst last
      rw [List.getElem?_concat_length, Option.some.injEq] at here
      rw [List.take_left, ← here, named, linked.tip_eq]

/-- What holds of the genesis and of every hash holds of every index an entry names. -/
theorem forall_prev {P : H → Prop} (linked : Linked prev hash genesis es tip) (start : P genesis)
    (hashes : ∀ e ∈ es, P (hash e)) : P tip ∧ ∀ e ∈ es, P (prev e) := by
  induction linked with
  | nil => exact ⟨start, by simp⟩
  | @snoc before last entry _ named ih =>
    obtain ⟨tipped, earlier⟩ := ih fun e member => hashes e (List.mem_append_left _ member)
    refine ⟨hashes entry (by simp), fun e member => ?_⟩
    rcases List.mem_append.mp member with old | new
    · exact earlier e old
    · rw [List.mem_singleton.mp new, named]
      exact tipped

/-- Two logs with one tip agree entry by entry, when equal hashes make equal entries and no hash
is the genesis. The induction goes backwards along both logs. -/
theorem agree {R : E → E → Prop} (first : Linked prev hash genesis es tip) (second : Linked prev hash genesis fs tip)
    (binds : ∀ e ∈ es, ∀ f ∈ fs, hash e = hash f → prev e = prev f ∧ R e f)
    (apartFirst : ∀ e ∈ es, hash e ≠ genesis) (apartSecond : ∀ f ∈ fs, hash f ≠ genesis) :
    List.Forall₂ R es fs := by
  induction first generalizing fs with
  | nil =>
    generalize same : genesis = last at second
    cases second with
    | nil => exact .nil
    | snoc _ _ => exact absurd same.symm (apartSecond _ (by simp))
  | @snoc before last entry linked named ih =>
    generalize same : hash entry = tip at second
    cases second with
    | nil => exact absurd same (apartFirst _ (by simp))
    | @snoc others last' other linked' named' =>
      obtain ⟨prevs, related⟩ := binds entry (by simp) other (by simp) same
      have tips : last' = last := by rw [← named', ← prevs, named]
      have rest := ih (tips ▸ linked')
        (fun e member f member' => binds e (List.mem_append_left _ member) f (List.mem_append_left _ member'))
        (fun e member => apartFirst e (List.mem_append_left _ member))
        (fun f member => apartSecond f (List.mem_append_left _ member))
      exact List.rel_append rest (.cons related .nil)

end Linked

end HashChain
