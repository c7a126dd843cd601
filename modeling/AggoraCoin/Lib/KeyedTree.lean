import Mathlib

/-- An ordered tree whose values carry their own key, scanned in key order.
The strict order of the keys is part of the type, so a scan never repeats a key. -/
structure KeyedTree {K V : Type} [LinearOrder K] (key : V → K) where
  entries : List V
  sorted : entries.Pairwise (fun a b => key a < key b)

namespace KeyedTree

variable {K V : Type} [LinearOrder K] {key : V → K}

/-- Insert in key order, replacing the entry with the same key. -/
def insertEntry (key : V → K) (v : V) : List V → List V
  | [] => [v]
  | w :: rest =>
    if key v < key w then v :: w :: rest
    else if key v = key w then v :: rest
    else w :: insertEntry key v rest

theorem mem_insertEntry {v w : V} {entries : List V} (member : w ∈ insertEntry key v entries) :
    w = v ∨ w ∈ entries := by
  induction entries with
  | nil => exact Or.inl (List.mem_singleton.mp member)
  | cons head rest ih =>
    unfold insertEntry at member
    split at member
    · exact List.mem_cons.mp member
    · split at member
      · rcases List.mem_cons.mp member with new | old
        · exact Or.inl new
        · exact Or.inr (List.mem_cons_of_mem _ old)
      · rcases List.mem_cons.mp member with same | later
        · exact Or.inr (same ▸ List.mem_cons_self ..)
        · exact (ih later).imp_right (List.mem_cons_of_mem _)

theorem insertEntry_sorted (v : V) {entries : List V}
    (sorted : entries.Pairwise (fun a b => key a < key b)) :
    (insertEntry key v entries).Pairwise (fun a b => key a < key b) := by
  induction entries with
  | nil => exact List.pairwise_singleton _ _
  | cons head rest ih =>
    obtain ⟨above, tail⟩ := List.pairwise_cons.mp sorted
    unfold insertEntry
    split
    · rename_i below
      refine List.pairwise_cons.mpr ⟨?_, sorted⟩
      intro w member
      rcases List.mem_cons.mp member with rfl | later
      · exact below
      · exact below.trans (above w later)
    · rename_i notBelow
      split
      · rename_i same
        exact List.pairwise_cons.mpr ⟨fun w member => same ▸ above w member, tail⟩
      · rename_i different
        refine List.pairwise_cons.mpr ⟨?_, ih tail⟩
        intro w member
        rcases mem_insertEntry member with rfl | old
        · exact lt_of_le_of_ne (not_lt.mp notBelow) (Ne.symm different)
        · exact above w old

def empty : KeyedTree key := ⟨[], .nil⟩

def get (t : KeyedTree key) (k : K) : Option V := t.entries.find? (fun v => key v = k)

def put (t : KeyedTree key) (v : V) : KeyedTree key :=
  ⟨insertEntry key v t.entries, insertEntry_sorted v t.sorted⟩

def putAll (t : KeyedTree key) (vs : List V) : KeyedTree key := vs.foldl put t

/-- The sum of `f` over one scan. -/
def total (f : V → Nat) (t : KeyedTree key) : Nat := (t.entries.map f).sum

def size (t : KeyedTree key) : Nat := t.entries.length

@[simp] theorem get_empty (k : K) : (empty : KeyedTree key).get k = none := rfl

@[simp] theorem entries_empty : (empty : KeyedTree key).entries = [] := rfl

@[simp] theorem total_empty (f : V → Nat) : (empty : KeyedTree key).total f = 0 := rfl

@[simp] theorem putAll_nil (t : KeyedTree key) : t.putAll [] = t := rfl

@[simp] theorem putAll_cons (t : KeyedTree key) (v : V) (vs : List V) :
    t.putAll (v :: vs) = (t.put v).putAll vs := rfl

theorem putAll_append (t : KeyedTree key) (vs ws : List V) :
    t.putAll (vs ++ ws) = (t.putAll vs).putAll ws := List.foldl_append

theorem key_of_get {t : KeyedTree key} {k : K} {v : V} (found : t.get k = some v) : key v = k := by
  simpa only [decide_eq_true_eq] using List.find?_some found

theorem mem_of_get {t : KeyedTree key} {k : K} {v : V} (found : t.get k = some v) : v ∈ t.entries :=
  List.mem_of_find?_eq_some found

theorem keys_nodup (t : KeyedTree key) : (t.entries.map key).Nodup :=
  List.pairwise_map.mpr (t.sorted.imp ne_of_lt)

theorem get_of_mem {t : KeyedTree key} {v : V} (member : v ∈ t.entries) : t.get (key v) = some v := by
  cases found : t.get (key v) with
  | none =>
    have absent := List.find?_eq_none.mp found v member
    simp at absent
  | some w =>
    exact congrArg some (List.inj_on_of_nodup_map t.keys_nodup (mem_of_get found) member (key_of_get found))

theorem get_eq_some_iff {t : KeyedTree key} {k : K} {v : V} :
    t.get k = some v ↔ v ∈ t.entries ∧ key v = k := by
  constructor
  · exact fun found => ⟨mem_of_get found, key_of_get found⟩
  · rintro ⟨member, rfl⟩
    exact get_of_mem member

theorem get_eq_none_iff {t : KeyedTree key} {k : K} : t.get k = none ↔ k ∉ t.entries.map key := by
  simp only [get, List.find?_eq_none, decide_eq_true_eq, List.mem_map, not_exists, not_and]

/-- Looking values up by their keys finds them again. -/
theorem filterMap_get_map {t : KeyedTree key} {vs : List V} (stored : ∀ v ∈ vs, t.get (key v) = some v) :
    (vs.map key).filterMap t.get = vs := by
  induction vs with
  | nil => rfl
  | cons v rest ih =>
    rw [List.map_cons, List.filterMap_cons, stored v (List.mem_cons_self ..)]
    exact congrArg (v :: ·) (ih fun w member => stored w (List.mem_cons_of_mem _ member))

theorem map_filterMap_get {t : KeyedTree key} {ks : List K} (stored : ∀ k ∈ ks, (t.get k).isSome) :
    (ks.filterMap t.get).map key = ks := by
  induction ks with
  | nil => rfl
  | cons k rest ih =>
    obtain ⟨v, found⟩ := Option.isSome_iff_exists.mp (stored k (List.mem_cons_self ..))
    rw [List.filterMap_cons, found, List.map_cons, key_of_get found]
    exact congrArg (k :: ·) (ih fun k' member => stored k' (List.mem_cons_of_mem _ member))

/-- Two trees that answer every lookup alike have the same scan. -/
theorem ext_get {t u : KeyedTree key} (same : ∀ k, t.get k = u.get k) : t = u := by
  have members : ∀ v, v ∈ t.entries ↔ v ∈ u.entries := by
    intro v
    constructor
    · intro member
      exact mem_of_get ((same _).symm.trans (get_of_mem member))
    · intro member
      exact mem_of_get ((same _).trans (get_of_mem member))
  have perm : t.entries.Perm u.entries :=
    (List.perm_ext_iff_of_nodup t.keys_nodup.of_map u.keys_nodup.of_map).mpr members
  have equal : t.entries = u.entries :=
    perm.eq_of_pairwise (fun _ _ _ _ below above => absurd below (not_lt.mpr above.le)) t.sorted u.sorted
  cases t
  cases u
  simp_all only

theorem find?_insertEntry (v : V) (k : K) (entries : List V) :
    (insertEntry key v entries).find? (fun w => key w = k) =
      if key v = k then some v else entries.find? (fun w => key w = k) := by
  induction entries with
  | nil => by_cases here : key v = k <;> simp [insertEntry, here]
  | cons head rest ih =>
    unfold insertEntry
    split
    · by_cases here : key v = k <;> simp [here]
    · split
      · rename_i same
        by_cases here : key v = k <;> simp [← same, here]
      · rename_i different
        by_cases atHead : key head = k
        · have elsewhere : key v ≠ k := fun here => different (here.trans atHead.symm)
          simp [atHead, elsewhere]
        · simp [atHead, ih]

@[simp] theorem get_put (t : KeyedTree key) (v : V) (k : K) :
    (t.put v).get k = if key v = k then some v else t.get k :=
  find?_insertEntry v k t.entries

theorem get_put_self (t : KeyedTree key) (v : V) : (t.put v).get (key v) = some v := by simp

theorem get_put_of_ne (t : KeyedTree key) {v : V} {k : K} (different : key v ≠ k) :
    (t.put v).get k = t.get k := by simp [different]

theorem put_of_get {t : KeyedTree key} {v : V} (found : t.get (key v) = some v) : t.put v = t := by
  refine ext_get fun k => ?_
  rw [get_put]
  split
  · rename_i here
    rw [← here, found]
  · rfl

theorem mem_put_iff {t : KeyedTree key} {v w : V} :
    w ∈ (t.put v).entries ↔ w = v ∨ w ∈ t.entries ∧ key w ≠ key v := by
  constructor
  · intro member
    have found := get_of_mem member
    rw [get_put] at found
    split at found
    · exact Or.inl (Option.some.inj found).symm
    · rename_i different
      exact Or.inr ⟨mem_of_get found, Ne.symm different⟩
  · rintro (rfl | ⟨member, different⟩)
    · exact mem_of_get (get_put_self t _)
    · exact mem_of_get ((get_put_of_ne t (Ne.symm different)).trans (get_of_mem member))

/-- A value above every stored key is appended to the scan. -/
theorem entries_put_last {t : KeyedTree key} {v : V} (last : ∀ w ∈ t.entries, key w < key v) :
    (t.put v).entries = t.entries ++ [v] := by
  obtain ⟨entries, sorted⟩ := t
  change insertEntry key v entries = entries ++ [v]
  change ∀ w ∈ entries, key w < key v at last
  clear sorted
  induction entries with
  | nil => rfl
  | cons head rest ih =>
    have below := last head (List.mem_cons_self ..)
    simp only [insertEntry, if_neg (not_lt.mpr below.le), if_neg (ne_of_gt below), List.cons_append,
      ih (fun w member => last w (List.mem_cons_of_mem _ member))]

section Totals

variable (f : V → Nat)

theorem total_put_fresh {t : KeyedTree key} {v : V} (fresh : t.get (key v) = none) :
    (t.put v).total f = t.total f + f v := by
  obtain ⟨entries, sorted⟩ := t
  change ((insertEntry key v entries).map f).sum = (entries.map f).sum + f v
  have absent := get_eq_none_iff.mp fresh
  change key v ∉ entries.map key at absent
  clear sorted fresh
  induction entries with
  | nil => simp [insertEntry]
  | cons head rest ih =>
    simp only [List.map_cons, List.mem_cons, not_or] at absent
    unfold insertEntry
    split
    · simp only [List.map_cons, List.sum_cons]
      omega
    · simp only [if_neg absent.1, List.map_cons, List.sum_cons, ih absent.2]
      omega

theorem total_put_of_get {t : KeyedTree key} {v w : V} (found : t.get (key v) = some w) :
    (t.put v).total f + f w = t.total f + f v := by
  obtain ⟨entries, sorted⟩ := t
  change ((insertEntry key v entries).map f).sum + f w = (entries.map f).sum + f v
  obtain ⟨member, same⟩ := get_eq_some_iff.mp found
  change w ∈ entries at member
  clear found
  induction entries with
  | nil => simp at member
  | cons head rest ih =>
    obtain ⟨above, tail⟩ := List.pairwise_cons.mp sorted
    unfold insertEntry
    rcases List.mem_cons.mp member with rfl | later
    · simp only [← same, lt_irrefl, if_false, if_true, List.map_cons, List.sum_cons]
      omega
    · have beyond : key head < key v := same ▸ above w later
      have step := ih tail later
      simp only [if_neg (not_lt.mpr beyond.le), if_neg (ne_of_gt beyond), List.map_cons, List.sum_cons]
      omega

theorem total_put_le (t : KeyedTree key) (v : V) : (t.put v).total f ≤ t.total f + f v := by
  cases found : t.get (key v) with
  | none => exact (total_put_fresh f found).le
  | some w =>
    have replaced := total_put_of_get f found
    omega

theorem le_total_of_get {t : KeyedTree key} {k : K} {v : V} (found : t.get k = some v) : f v ≤ t.total f :=
  List.le_sum_of_mem (List.mem_map_of_mem (mem_of_get found))

/-- Two entries under different keys add up to at most the total. -/
theorem add_le_total_of_get {t : KeyedTree key} {k l : K} {v w : V} (different : k ≠ l)
    (foundV : t.get k = some v) (foundW : t.get l = some w) : f v + f w ≤ t.total f := by
  have distinct : v ≠ w := fun same => different
    ((key_of_get foundV).symm.trans ((congrArg key same).trans (key_of_get foundW)))
  have pair : [v, w].Subperm t.entries :=
    (List.subperm_of_subset (by simpa using distinct) (by
      intro x member
      rcases List.mem_cons.mp member with rfl | member
      · exact mem_of_get foundV
      · rw [List.mem_singleton.mp member]; exact mem_of_get foundW))
  obtain ⟨part, perm, sub⟩ := pair
  have sums := (sub.map f).sum_le_sum (fun _ _ => Nat.zero_le _)
  rw [(perm.map f).sum_eq] at sums
  simpa [total] using sums

end Totals

theorem size_eq_total (t : KeyedTree key) : t.size = t.total (fun _ => 1) := by
  simp [size, total]

theorem size_put_fresh {t : KeyedTree key} {v : V} (fresh : t.get (key v) = none) :
    (t.put v).size = t.size + 1 := by
  simpa only [size_eq_total] using total_put_fresh (fun _ => 1) fresh

theorem size_put_of_get {t : KeyedTree key} {v w : V} (found : t.get (key v) = some w) :
    (t.put v).size = t.size := by
  have same := total_put_of_get (fun _ => 1) found
  simpa only [size_eq_total, Nat.add_right_cancel_iff] using same

section Batches

theorem get_putAll_of_notMem {t : KeyedTree key} {vs : List V} {k : K} (absent : k ∉ vs.map key) :
    (t.putAll vs).get k = t.get k := by
  induction vs generalizing t with
  | nil => rfl
  | cons v rest ih =>
    simp only [List.map_cons, List.mem_cons, not_or] at absent
    rw [putAll_cons, ih absent.2, get_put_of_ne t (Ne.symm absent.1)]

theorem get_putAll_of_mem {t : KeyedTree key} {vs : List V} {v : V} (distinct : (vs.map key).Nodup)
    (member : v ∈ vs) : (t.putAll vs).get (key v) = some v := by
  induction vs generalizing t with
  | nil => simp at member
  | cons w rest ih =>
    obtain ⟨absent, tail⟩ := List.nodup_cons.mp distinct
    rcases List.mem_cons.mp member with rfl | later
    · rw [putAll_cons, get_putAll_of_notMem absent, get_put_self]
    · exact ih tail later

theorem isSome_get_putAll {t : KeyedTree key} {vs : List V} {k : K} :
    ((t.putAll vs).get k).isSome ↔ (t.get k).isSome ∨ k ∈ vs.map key := by
  induction vs generalizing t with
  | nil => simp
  | cons v rest ih =>
    rw [putAll_cons, ih, get_put, List.map_cons, List.mem_cons]
    by_cases here : key v = k
    · simp [here]
    · simp [here, Ne.symm here]

/-- What a batch leaves under a key: one of its own values, or what was there. -/
theorem get_putAll_cases (t : KeyedTree key) (vs : List V) (k : K) :
    (∃ v ∈ vs, key v = k ∧ (t.putAll vs).get k = some v) ∨ k ∉ vs.map key ∧ (t.putAll vs).get k = t.get k := by
  induction vs generalizing t with
  | nil => exact Or.inr ⟨by simp, rfl⟩
  | cons v rest ih =>
    rcases ih (t.put v) with ⟨w, member, here, found⟩ | ⟨absent, same⟩
    · exact Or.inl ⟨w, List.mem_cons_of_mem _ member, here, found⟩
    · by_cases here : key v = k
      · refine Or.inl ⟨v, List.mem_cons_self .., here, ?_⟩
        rw [putAll_cons, same, ← here, get_put_self]
      · refine Or.inr ⟨?_, ?_⟩
        · simp only [List.map_cons, List.mem_cons, not_or]
          exact ⟨Ne.symm here, absent⟩
        · rw [putAll_cons, same, get_put_of_ne t here]

theorem mem_putAll {t : KeyedTree key} {vs : List V} {w : V} (member : w ∈ (t.putAll vs).entries) :
    w ∈ t.entries ∨ w ∈ vs := by
  induction vs generalizing t with
  | nil => exact Or.inl member
  | cons v rest ih =>
    rcases ih member with old | later
    · rcases mem_put_iff.mp old with rfl | ⟨before, _⟩
      · exact Or.inr (List.mem_cons_self ..)
      · exact Or.inl before
    · exact Or.inr (List.mem_cons_of_mem _ later)

/-- A batch in ascending order is the scan of the tree it builds. -/
theorem entries_putAll_ascending {t : KeyedTree key} {vs : List V}
    (ascending : (t.entries ++ vs).Pairwise fun a b => key a < key b) :
    (t.putAll vs).entries = t.entries ++ vs := by
  induction vs generalizing t with
  | nil => exact (List.append_nil _).symm
  | cons v rest ih =>
    have last : ∀ w ∈ t.entries, key w < key v := by
      intro w member
      exact (List.pairwise_append.mp ascending).2.2 w member v (List.mem_cons_self ..)
    have grown := entries_put_last last
    rw [putAll_cons, ih]
    · rw [grown, List.append_assoc]
      rfl
    · rw [grown, List.append_assoc]
      exact ascending

/-- Rewriting every entry in place, in scan order, replaces the scan. -/
theorem entries_putAll_of_keys_eq {t : KeyedTree key} {us : List V}
    (same : us.map key = t.entries.map key) : (t.putAll us).entries = us := by
  have ordered : us.Pairwise (fun a b => key a < key b) := by
    have keys := List.pairwise_map.mpr t.sorted
    rw [← same] at keys
    exact List.pairwise_map.mp keys
  let target : KeyedTree key := ⟨us, ordered⟩
  have equal : t.putAll us = target := by
    refine ext_get fun k => ?_
    by_cases stored : k ∈ us.map key
    · obtain ⟨u, member, rfl⟩ := List.mem_map.mp stored
      rw [get_putAll_of_mem target.keys_nodup member]
      exact (get_of_mem (t := target) member).symm
    · rw [get_putAll_of_notMem stored, get_eq_none_iff.mpr (by rwa [← same]),
        (get_eq_none_iff (t := target)).mpr stored]
  rw [equal]

/-- A batch that overwrites nothing of weight adds its own weight. -/
theorem total_putAll_over (f : V → Nat) {t : KeyedTree key} {vs : List V} (distinct : (vs.map key).Nodup)
    (weightless : ∀ v ∈ vs, ∀ w, t.get (key v) = some w → f w = 0) :
    (t.putAll vs).total f = t.total f + (vs.map f).sum := by
  induction vs generalizing t with
  | nil => simp
  | cons v rest ih =>
    obtain ⟨absent, tail⟩ := List.nodup_cons.mp distinct
    have later : ∀ u ∈ rest, ∀ w, (t.put v).get (key u) = some w → f w = 0 := by
      intro u member w found
      have different : key v ≠ key u := fun same => absent (same ▸ List.mem_map_of_mem member)
      rw [get_put_of_ne t different] at found
      exact weightless u (List.mem_cons_of_mem _ member) w found
    have one : (t.put v).total f = t.total f + f v := by
      cases here : t.get (key v) with
      | none => exact total_put_fresh f here
      | some w =>
        have replaced := total_put_of_get f here
        have nothing := weightless v (List.mem_cons_self ..) w here
        omega
    rw [putAll_cons, ih tail later, one, List.map_cons, List.sum_cons, Nat.add_assoc]

theorem total_putAll_fresh (f : V → Nat) {t : KeyedTree key} {vs : List V} (distinct : (vs.map key).Nodup)
    (fresh : ∀ v ∈ vs, t.get (key v) = none) : (t.putAll vs).total f = t.total f + (vs.map f).sum := by
  refine total_putAll_over f distinct fun v member w found => ?_
  rw [fresh v member] at found
  cases found

theorem total_putAll_le (f : V → Nat) (t : KeyedTree key) (vs : List V) :
    (t.putAll vs).total f ≤ t.total f + (vs.map f).sum := by
  induction vs generalizing t with
  | nil => simp
  | cons v rest ih =>
    have later := ih (t.put v)
    have one := total_put_le f t v
    simp only [putAll_cons, List.map_cons, List.sum_cons]
    omega

theorem size_putAll_le (t : KeyedTree key) (vs : List V) : (t.putAll vs).size ≤ t.size + vs.length := by
  induction vs generalizing t with
  | nil => simp
  | cons v rest ih =>
    have step := ih (t.put v)
    have one : (t.put v).size ≤ t.size + 1 := by
      cases found : t.get (key v) with
      | none => exact (size_put_fresh found).le
      | some w => exact (size_put_of_get found).le.trans (Nat.le_succ _)
    simp only [putAll_cons, List.length_cons]
    omega

/-- A batch adds one entry per value exactly when its keys are distinct and all new. -/
theorem size_putAll_eq_iff {t : KeyedTree key} {vs : List V} :
    (t.putAll vs).size = t.size + vs.length ↔
      (vs.map key).Nodup ∧ ∀ v ∈ vs, t.get (key v) = none := by
  constructor
  · intro full
    induction vs generalizing t with
    | nil => simp
    | cons v rest ih =>
      have bound := size_putAll_le (t.put v) rest
      simp only [putAll_cons, List.length_cons] at full
      cases found : t.get (key v) with
      | some w =>
        have same := size_put_of_get found
        omega
      | none =>
        have grown := size_put_fresh found
        obtain ⟨tail, fresh⟩ := ih (t := t.put v) (by omega)
        have apart : ∀ w ∈ rest, key v ≠ key w := by
          intro w member same
          have clash := fresh w member
          rw [← same, get_put_self] at clash
          cases clash
        refine ⟨List.nodup_cons.mpr ⟨?_, tail⟩, ?_⟩
        · intro member
          obtain ⟨w, later, same⟩ := List.mem_map.mp member
          exact apart w later same.symm
        · intro w member
          rcases List.mem_cons.mp member with rfl | later
          · exact found
          · rw [← get_put_of_ne t (apart w later), fresh w later]
  · rintro ⟨distinct, fresh⟩
    simpa only [size_eq_total, List.map_const', List.sum_replicate, smul_eq_mul, mul_one] using
      total_putAll_fresh (fun _ => 1) distinct fresh

end Batches

end KeyedTree
