import RustQueue.Lib.Maps

/-!
# Gathering reports by key

Entries that arrive in batches are gathered in a list with one entry per key: an entry whose key is known is merged
into the one that is there, and one whose key is new is added.  `absorb` takes a batch by way of a
map, so that its list is sorted by key.

* `Gathered`: each key of the list has the merged entries of that key, in the order in which they came;
* `Gathered.absorb`: a further batch is gathered too;
* `map_joined`: a quantity that merging adds up is the sum over all entries, in any commutative monoid, so that
  the order in which they came makes no difference to it.
-/

namespace RustQueue.Lib

open Std

variable {κ α : Type*}

/-! ### Merging in order -/

section Joined

variable (merge : α → α → α)

/-- The first entry with all others merged into it one by one. -/
def joined : List α → Option α
  | [] => none
  | a :: rest => some (rest.foldl merge a)

/-- One entry more. -/
def join (found : Option α) (a : α) : Option α :=
  match found with
  | none => some a
  | some old => some (merge old a)

variable {merge}

theorem foldl_join_some (l : List α) (a : α) : l.foldl (join merge) (some a) = some (l.foldl merge a) := by
  induction l generalizing a with
  | nil => rfl
  | cons b l ih => exact ih (merge a b)

theorem foldl_join (l more : List α) : more.foldl (join merge) (joined merge l) = joined merge (l ++ more) := by
  cases l with
  | nil =>
    cases more with
    | nil => rfl
    | cons a more => exact foldl_join_some more a
  | cons a l =>
    show more.foldl (join merge) (some (l.foldl merge a)) = some ((l ++ more).foldl merge a)
    rw [foldl_join_some, List.foldl_append]

theorem joined_eq_none {l : List α} : joined merge l = none ↔ l = [] := by
  cases l with
  | nil => exact iff_of_true rfl rfl
  | cons a l => exact iff_of_false (by simp [joined]) (by simp)

/-- **A quantity that merging adds up** is the sum of all that was merged. -/
theorem map_joined {M : Type*} [AddMonoid M] (φ : α → M) (hφ : ∀ a b, φ (merge a b) = φ a + φ b)
    {l : List α} {a : α} (h : joined merge l = some a) : φ a = (l.map φ).sum := by
  cases l with
  | nil => cases h
  | cons b l =>
    cases h
    have hfold : ∀ (l : List α) b, φ (l.foldl merge b) = φ b + (l.map φ).sum := by
      intro l
      induction l with
      | nil => intro b; simp
      | cons c l ih =>
        intro b
        rw [List.foldl_cons, ih, hφ, List.map_cons, List.sum_cons, add_assoc]
    rw [hfold, List.map_cons, List.sum_cons]

/-- A flag that merging keeps raised is raised if it was for some entry. -/
theorem any_joined (φ : α → Bool) (hφ : ∀ a b, φ (merge a b) = (φ a || φ b)) {l : List α} {a : α}
    (h : joined merge l = some a) : φ a = l.any φ := by
  cases l with
  | nil => cases h
  | cons b l =>
    cases h
    have hfold : ∀ (l : List α) b, φ (l.foldl merge b) = (φ b || l.any φ) := by
      intro l
      induction l with
      | nil => intro b; simp
      | cons c l ih =>
        intro b
        rw [List.foldl_cons, ih, hφ, List.any_cons, Bool.or_assoc]
    rw [hfold, List.any_cons]

end Joined

/-! ### Gathered lists -/

section Gathered

variable [DecidableEq κ] (key : α → κ) (merge : α → α → α)

/-- The entry for a key. -/
def entryOf (out : List α) (k : κ) : Option α := out.find? fun a => key a = k

/-- The entries with a key. -/
def entriesOf (all : List α) (k : κ) : List α := all.filter fun a => key a = k

/-- A list that holds, for each key, the entries with that key merged into one. -/
structure Gathered (out all : List α) : Prop where
  nodup : (out.map key).Nodup
  entry : ∀ k, entryOf key out k = joined merge (entriesOf key all k)

variable {key merge} {out all : List α}

theorem entryOf_eq_some (hnodup : (out.map key).Nodup) {k : κ} {a : α} :
    entryOf key out k = some a ↔ a ∈ out ∧ key a = k := by
  constructor
  · intro h
    exact ⟨List.mem_of_find?_eq_some h, of_decide_eq_true (List.find?_some h :)⟩
  · rintro ⟨hmem, rfl⟩
    have hpairs := List.pairwise_map.1 hnodup
    cases hfind : entryOf key out (key a) with
    | none => exact absurd (decide_eq_true rfl) (List.find?_eq_none.1 hfind a hmem)
    | some b =>
      have hb : b ∈ out := List.mem_of_find?_eq_some hfind
      have hkey : key b = key a := of_decide_eq_true (List.find?_some hfind :)
      rw [List.inj_on_of_nodup_map hnodup hb hmem hkey]

/-- Entries with different keys are gathered as they are. -/
theorem Gathered.of_nodup (h : (all.map key).Nodup) : Gathered key merge all all where
  nodup := h
  entry k := by
    cases hentry : entryOf key all k with
    | none =>
      rw [eq_comm, joined_eq_none]
      exact List.filter_eq_nil_iff.2 fun a ha => List.find?_eq_none.1 hentry a ha
    | some a =>
      have ha := (entryOf_eq_some h).1 hentry
      have hone : entriesOf key all k = [a] := by
        refine List.perm_singleton.1 ((List.perm_ext_iff_of_nodup ((List.Nodup.of_map key h).filter _)
          (List.nodup_singleton a)).2 fun b => ?_)
        rw [List.mem_singleton, List.mem_filter, decide_eq_true_eq]
        constructor
        · rintro ⟨hb, hkey⟩
          exact List.inj_on_of_nodup_map h hb ha.1 (hkey.trans ha.2.symm)
        · rintro rfl
          exact ha
      rw [hone]
      rfl

theorem Gathered.mem_iff (h : Gathered key merge out all) {a : α} :
    a ∈ out ↔ joined merge (entriesOf key all (key a)) = some a := by
  rw [← h.entry, entryOf_eq_some h.nodup]
  exact ⟨fun hmem => ⟨hmem, rfl⟩, fun hmem => hmem.1⟩

theorem mem_map_key {l : List α} {k : κ} : k ∈ l.map key ↔ entriesOf key l k ≠ [] := by
  rw [Ne, entriesOf, List.filter_eq_nil_iff, List.mem_map]
  simp

/-- The keys of a gathered list are those that came. -/
theorem Gathered.mem_keys (h : Gathered key merge out all) {k : κ} :
    k ∈ out.map key ↔ k ∈ all.map key := by
  have hentry : entryOf key out k = none ↔ entriesOf key out k = [] := by
    rw [entryOf, List.find?_eq_none, entriesOf, List.filter_eq_nil_iff]
  rw [mem_map_key, mem_map_key, Ne, Ne, ← hentry, h.entry k, joined_eq_none]

end Gathered

/-- Lists with the same keys in the same order, and the same value at each key. -/
theorem map_eq_map_of_keys {β : Type*} {key : α → κ} {f : α → β} {l l' : List α}
    (hkeys : l.map key = l'.map key) (h : ∀ a ∈ l, ∀ b ∈ l', key a = key b → f a = f b) :
    l.map f = l'.map f := by
  induction l generalizing l' with
  | nil => rw [List.map_eq_nil_iff.1 hkeys.symm]
  | cons a l ih =>
    cases l' with
    | nil => cases hkeys
    | cons b l' =>
      obtain ⟨hkey, hrest⟩ := List.cons.inj hkeys
      rw [List.map_cons, List.map_cons, h a List.mem_cons_self b List.mem_cons_self hkey,
        ih hrest fun c hc d hd => h c (List.mem_cons_of_mem _ hc) d (List.mem_cons_of_mem _ hd)]

/-! ### Absorbing a batch -/

section Absorb

variable [DecidableEq κ] {cmp : κ → κ → Ordering} [TransCmp cmp] [LawfulEqCmp cmp] (key : α → κ)
  (merge : α → α → α)

/-- The entries of a list under their keys, where the last one with a key wins. -/
def keyed (out : List α) : ExtTreeMap κ α cmp := out.foldl (fun t a => t.insert (key a) a) ∅

/-- One entry more, merged if its key is there. -/
def mergeInto (t : ExtTreeMap κ α cmp) (a : α) : ExtTreeMap κ α cmp :=
  match t[key a]? with
  | some old => t.insert (key a) (merge old a)
  | none => t.insert (key a) a

/-- A list with a batch merged into it, sorted by key. -/
def absorb (cmp : κ → κ → Ordering) [TransCmp cmp] (out more : List α) : List α :=
  (more.foldl (mergeInto key merge) (keyed key out : ExtTreeMap κ α cmp)).toList.map Prod.snd

/-- Every entry stands under its key. -/
def Keyed (t : ExtTreeMap κ α cmp) : Prop := ∀ k a, t[k]? = some a → key a = k

variable {key merge} {out all more : List α} {t : ExtTreeMap κ α cmp}

theorem getElem?_keyed (h : (out.map key).Nodup) (k : κ) :
    (keyed key out : ExtTreeMap κ α cmp)[k]? = entryOf key out k := by
  have hlook := lookup_foldl (fun (t : ExtTreeMap κ α cmp) a => t.insert (key a) a) key (fun t k => t[k]?)
    (fun a _ => some a) (fun _ _ _ => getElem?_insert_eq) h ∅ k
  rw [keyed, hlook, ExtTreeMap.getElem?_empty, entryOf]
  cases out.find? fun a => decide (key a = k) <;> rfl

theorem getElem?_mergeInto (a : α) (k : κ) :
    (mergeInto key merge t a)[k]? = if key a = k then join merge t[k]? a else t[k]? := by
  unfold mergeInto
  by_cases hk : key a = k
  · subst hk
    rw [if_pos rfl]
    cases hget : t[key a]? with
    | none => exact getElem?_insert_eq.trans (if_pos rfl)
    | some old => exact getElem?_insert_eq.trans (if_pos rfl)
  · rw [if_neg hk]
    cases t[key a]? with
    | none => exact getElem?_insert_eq.trans (if_neg hk)
    | some old => exact getElem?_insert_eq.trans (if_neg hk)

theorem getElem?_foldl_mergeInto (more : List α) (k : κ) :
    (more.foldl (mergeInto key merge) t)[k]? = (entriesOf key more k).foldl (join merge) t[k]? := by
  induction more generalizing t with
  | nil => rfl
  | cons a more ih =>
    rw [List.foldl_cons, ih, getElem?_mergeInto, entriesOf, entriesOf]
    by_cases hk : key a = k
    · rw [if_pos hk, List.filter_cons_of_pos (by simpa using hk), List.foldl_cons]
    · rw [if_neg hk, List.filter_cons_of_neg (by simpa using hk)]

variable (hkey : ∀ a b, key (merge a b) = key a)
include hkey

omit [DecidableEq κ] in
theorem key_foldl_join {k : κ} {l : List α} (hl : ∀ a ∈ l, key a = k) {found : Option α}
    (hfound : ∀ a, found = some a → key a = k) {a : α} (h : l.foldl (join merge) found = some a) :
    key a = k := by
  induction l generalizing found with
  | nil => exact hfound a h
  | cons b l ih =>
    refine ih (fun c hc => hl c (List.mem_cons_of_mem _ hc)) (fun c hc => ?_) h
    cases found with
    | none =>
      cases hc
      exact hl b List.mem_cons_self
    | some old =>
      cases hc
      rw [hkey]
      exact hfound old rfl

theorem Keyed.foldl_mergeInto (h : (out.map key).Nodup) :
    Keyed key (more.foldl (mergeInto key merge) (keyed key out : ExtTreeMap κ α cmp)) := by
  intro k a hget
  rw [getElem?_foldl_mergeInto, getElem?_keyed h] at hget
  refine key_foldl_join hkey (fun b hb => of_decide_eq_true (List.mem_filter.1 hb).2) (fun b hb => ?_) hget
  exact ((entryOf_eq_some h).1 hb).2

omit hkey

omit [DecidableEq κ] in
/-- The keys of a map whose entries stand under their keys. -/
theorem Keyed.map_key (h : Keyed key t) : (t.toList.map Prod.snd).map key = t.toList.map Prod.fst := by
  rw [List.map_map]
  refine List.map_congr_left ?_
  rintro ⟨k, a⟩ hmem
  exact h k a (ExtTreeMap.mem_toList_iff_getElem?_eq_some.1 hmem)

theorem Keyed.entryOf_values (h : Keyed key t) (k : κ) : entryOf key (t.toList.map Prod.snd) k = t[k]? := by
  have hnodup : ((t.toList.map Prod.snd).map key).Nodup := by
    rw [h.map_key, ExtTreeMap.map_fst_toList_eq_keys]
    exact ExtTreeMap.nodup_keys
  refine Option.ext fun a => ?_
  rw [entryOf_eq_some hnodup, List.mem_map]
  constructor
  · rintro ⟨⟨⟨k', a⟩, hmem, rfl⟩, hk⟩
    have hget := ExtTreeMap.mem_toList_iff_getElem?_eq_some.1 hmem
    rw [← hk, h _ _ hget, hget]
  · intro hget
    exact ⟨⟨(k, a), ExtTreeMap.mem_toList_iff_getElem?_eq_some.2 hget, rfl⟩, h _ _ hget⟩

include hkey

/-- **A batch is absorbed.** -/
theorem Gathered.absorb (h : Gathered key merge out all) :
    Gathered key merge (absorb key merge cmp out more) (all ++ more) where
  nodup := by
    rw [Lib.absorb, (Keyed.foldl_mergeInto hkey h.nodup).map_key, ExtTreeMap.map_fst_toList_eq_keys]
    exact ExtTreeMap.nodup_keys
  entry k := by
    rw [Lib.absorb, (Keyed.foldl_mergeInto hkey h.nodup).entryOf_values, getElem?_foldl_mergeInto,
      getElem?_keyed h.nodup, h.entry, foldl_join, entriesOf, entriesOf, entriesOf, List.filter_append]

/-- What was absorbed is sorted by key. -/
theorem pairwise_absorb (h : (out.map key).Nodup) :
    ((absorb key merge cmp out more).map key).Pairwise fun k k' => cmp k k' = .lt := by
  rw [Lib.absorb, (Keyed.foldl_mergeInto hkey h).map_key, List.pairwise_map]
  exact ExtTreeMap.ordered_keys_toList

end Absorb

end RustQueue.Lib
