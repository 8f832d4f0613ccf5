import Mathlib.Tactic

/-!
# Searching ordered maps

The lookup lemmas of `Std.ExtTreeMap` speak about the outcome of a comparison.  Here they are for keys
that are equal when they compare equal, together with what a search over the entries of a map says
about its lookups.

* `getElem?_insert_eq`, `getElem?_erase_eq`, `mem_insert_eq`, …: lookups after a change;
* `any_toList`: a search over the entries finds exactly what some lookup finds;
* `keys_filter_eq_singleton`: the keys of the entries that satisfy a predicate, when there is only one;
* `lookup_foldl`: a lookup after steps that each change one key;
* `foldl_insert_toList`: a map is what its entries make.
-/

namespace RustQueue.Lib

open Std

variable {α β : Type*} {cmp : α → α → Ordering} [TransCmp cmp] [LawfulEqCmp cmp] [DecidableEq α]
  {t : ExtTreeMap α β cmp} {k a : α} {v : β}

theorem getElem?_insert_eq : (t.insert k v)[a]? = if k = a then some v else t[a]? := by
  rw [ExtTreeMap.getElem?_insert]
  simp only [LawfulEqCmp.compare_eq_iff_eq]

theorem getElem?_erase_eq : (t.erase k)[a]? = if k = a then none else t[a]? := by
  rw [ExtTreeMap.getElem?_erase]
  simp only [LawfulEqCmp.compare_eq_iff_eq]

theorem getElem?_modify_eq {f : β → β} : (t.modify k f)[a]? = if k = a then t[k]?.map f else t[a]? := by
  rw [ExtTreeMap.getElem?_modify]
  simp only [LawfulEqCmp.compare_eq_iff_eq]

omit [DecidableEq α] in
theorem mem_insert_eq : a ∈ t.insert k v ↔ k = a ∨ a ∈ t := by
  rw [ExtTreeMap.mem_insert, LawfulEqCmp.compare_eq_iff_eq]

omit [DecidableEq α] in
theorem mem_erase_eq : a ∈ t.erase k ↔ k ≠ a ∧ a ∈ t := by
  rw [ExtTreeMap.mem_erase, ne_eq, LawfulEqCmp.compare_eq_iff_eq]

omit [DecidableEq α] in
theorem any_toList {p : α × β → Bool} :
    t.toList.any p = true ↔ ∃ k v, t[k]? = some v ∧ p (k, v) = true := by
  rw [List.any_eq_true]
  constructor
  · rintro ⟨⟨k, v⟩, hmem, hp⟩
    exact ⟨k, v, ExtTreeMap.mem_toList_iff_getElem?_eq_some.1 hmem, hp⟩
  · rintro ⟨k, v, hget, hp⟩
    exact ⟨(k, v), ExtTreeMap.mem_toList_iff_getElem?_eq_some.2 hget, hp⟩

omit [DecidableEq α] in
/-- What a search for an entry finds. -/
theorem find?_toList_eq_some {p : α × β → Bool} (h : t.toList.find? p = some (k, v)) :
    t[k]? = some v ∧ p (k, v) = true :=
  ⟨ExtTreeMap.mem_toList_iff_getElem?_eq_some.1 (List.mem_of_find?_eq_some h),
    List.find?_some h⟩

omit [DecidableEq α] in
theorem find?_toList_eq_none {p : α × β → Bool} :
    t.toList.find? p = none ↔ ∀ k v, t[k]? = some v → ¬p (k, v) = true := by
  rw [List.find?_eq_none]
  constructor
  · exact fun h k v hget => h (k, v) (ExtTreeMap.mem_toList_iff_getElem?_eq_some.2 hget)
  · rintro h ⟨k, v⟩ hmem
    exact h k v (ExtTreeMap.mem_toList_iff_getElem?_eq_some.1 hmem)

omit [DecidableEq α] in
/-- The only entry that satisfies a predicate is found by it. -/
theorem keys_filter_eq_singleton {p : α × β → Bool} (hget : t[k]? = some v) (hp : p (k, v) = true)
    (honly : ∀ k' v', t[k']? = some v' → p (k', v') = true → k' = k) :
    (t.toList.filter p).map Prod.fst = [k] := by
  have hnodup : ((t.toList.filter p).map Prod.fst).Nodup := by
    refine List.Nodup.sublist (List.Sublist.map _ List.filter_sublist) ?_
    rw [ExtTreeMap.map_fst_toList_eq_keys]
    exact ExtTreeMap.nodup_keys
  refine List.perm_singleton.1 ((List.perm_ext_iff_of_nodup hnodup (List.nodup_singleton k)).2 ?_)
  intro key
  rw [List.mem_map, List.mem_singleton]
  constructor
  · rintro ⟨⟨k', v'⟩, hmem, rfl⟩
    obtain ⟨hmem, hp'⟩ := List.mem_filter.1 hmem
    exact honly k' v' (ExtTreeMap.mem_toList_iff_getElem?_eq_some.1 hmem) hp'
  · rintro rfl
    exact ⟨(key, v), List.mem_filter.2 ⟨ExtTreeMap.mem_toList_iff_getElem?_eq_some.2 hget, hp⟩, rfl⟩

/-- Where every step changes what is looked up under its own key alone, steps with different keys change
each lookup at most once. -/
theorem lookup_foldl {σ τ κ δ : Type*} [DecidableEq κ] (step : σ → τ → σ) (key : τ → κ)
    (look : σ → κ → δ) (change : τ → δ → δ)
    (hstep : ∀ s x k, look (step s x) k = if key x = k then change x (look s k) else look s k)
    {l : List τ} (hkeys : (l.map key).Nodup) (s : σ) (k : κ) :
    look (l.foldl step s) k =
      (l.find? fun x => decide (key x = k)).elim (look s k) fun x => change x (look s k) := by
  induction l generalizing s with
  | nil => rfl
  | cons x l ih =>
    rw [List.map_cons, List.nodup_cons] at hkeys
    rw [List.foldl_cons, ih hkeys.2, List.find?_cons, hstep]
    by_cases hkey : key x = k
    · have hnone : (l.find? fun x => decide (key x = k)) = none := by
        refine List.find?_eq_none.2 fun other hother => ?_
        rw [decide_eq_true_eq, ← hkey]
        exact fun heq => hkeys.1 (heq ▸ List.mem_map_of_mem hother)
      rw [if_pos hkey, hnone, decide_eq_true hkey]
      rfl
    · rw [if_neg hkey, decide_eq_false hkey]

/-- The same for steps that are keys. -/
theorem lookup_foldl_of_nodup {σ κ δ : Type*} [DecidableEq κ] (step : σ → κ → σ) (look : σ → κ → δ)
    (change : δ → δ)
    (hstep : ∀ s x k, look (step s x) k = if x = k then change (look s k) else look s k)
    {l : List κ} (hl : l.Nodup) (s : σ) (k : κ) :
    look (l.foldl step s) k = if k ∈ l then change (look s k) else look s k := by
  rw [lookup_foldl step (fun x => x) look (fun _ => change) hstep ((List.map_id' l).symm ▸ hl) s k]
  cases hfind : l.find? fun x => decide (x = k) with
  | none =>
    rw [if_neg fun hmem => List.find?_eq_none.1 hfind k hmem (decide_eq_true rfl)]
    rfl
  | some x =>
    have hx : x = k := of_decide_eq_true (List.find?_some hfind :)
    rw [if_pos (hx ▸ List.mem_of_find?_eq_some hfind)]
    rfl

/-- A map is what is inserted entry by entry. -/
theorem foldl_insert_toList :
    t.toList.foldl (fun t entry => t.insert entry.1 entry.2) (∅ : ExtTreeMap α β cmp) = t := by
  refine ExtTreeMap.ext_getElem? fun k => ?_
  have hkeys : (t.toList.map Prod.fst).Nodup := by
    rw [ExtTreeMap.map_fst_toList_eq_keys]
    exact ExtTreeMap.nodup_keys
  have hlook := lookup_foldl (fun (t : ExtTreeMap α β cmp) entry => t.insert entry.1 entry.2) Prod.fst
    (fun t k => t[k]?) (fun entry _ => some entry.2) (fun _ _ _ => getElem?_insert_eq) hkeys ∅ k
  rw [hlook, ExtTreeMap.getElem?_empty]
  cases hfind : t.toList.find? fun entry => decide (entry.1 = k) with
  | none =>
    cases hget : t[k]? with
    | none => rfl
    | some v => exact absurd (decide_eq_true rfl) (find?_toList_eq_none.1 hfind k v hget)
  | some entry =>
    obtain ⟨hget, hkey⟩ := find?_toList_eq_some hfind
    rw [← of_decide_eq_true hkey, hget]
    rfl

end RustQueue.Lib
