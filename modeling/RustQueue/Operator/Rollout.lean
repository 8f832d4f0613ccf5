import RustQueue.Lib.Numerals
import RustQueue.Lib.Saturating

/-!
# Replacing the brokers of a cluster

The operator replaces outdated broker pods one at a time.  In every round it lists the pods, asks the
unready outdated ones whether they drain on purpose, and takes one decision (`rolloutDecision`): it is
done, it waits, it takes drains back, or it drains and deletes one pod.

The decision is a cascade of guards.  None of them checks that all pods but the one to be replaced are ready;
that follows from the guards that were passed (`Passed`), together with the fact that the pods have
different names.

* `cascade`: a decision that is not that of a guard is made when all were passed;
* `replaces_one_broker`: what each decision says about the pods.
-/

namespace RustQueue.Operator

open Lib

structure Condition where
  type : String
  status : String
  deriving DecidableEq, Repr

/-- What the operator reads of a pod; `nameAny` is the name that the client library makes of its metadata. -/
structure Pod where
  nameAny : String
  annotations : Option (Std.ExtTreeMap String String)
  deletionTimestamp : Option ℕ
  conditions : Option (List Condition)

def podRevision (pod : Pod) : Option String :=
  pod.annotations.bind fun annotations => annotations["rustqueue.io/revision"]?

def podReady (pod : Pod) : Bool :=
  pod.deletionTimestamp.isNone &&
    pod.conditions.any fun conditions =>
      conditions.any fun condition => condition.type == "Ready" && condition.status == "True"

/-- The characters behind the last `-`. -/
def behindDash (name : List Char) : Option (List Char) :=
  if '-' ∈ name then some (name.reverse.takeWhile (· ≠ '-')).reverse else none

def podOrdinal (name : String) : Option ℕ := (behindDash name.toList).bind (parseUnsigned 10 u32Max)

/-- The ordinals of some pods. -/
def ordinals (pods : List Pod) : Finset ℕ := (pods.filterMap fun pod => podOrdinal pod.nameAny).toFinset

def exactBrokerPodSet (pods : List Pod) (replicas : ℤ) : Bool :=
  if replicas < 0 then false
  else if replicas = 0 ∨ pods.length ≠ replicas.toNat then false
  else decide ((ordinals pods).card = pods.length ∧ ordinals pods = Finset.range replicas.toNat)

structure RolloutOptions where
  replicas : ℤ
  desiredRevision : String
  paused : Bool
  requireCanaryApproval : Bool
  approvedRevision : Option String
  deriving DecidableEq, Repr

inductive Decision where
  | completed
  | wait (message : String)
  | paused
  | awaitingApproval
  | blocked (message : String)
  | resume (names : List String) (message : String)
  | replace (name : String)
  deriving DecidableEq, Repr

/-! ### The decision -/

def isCurrent (options : RolloutOptions) (pod : Pod) : Bool :=
  podRevision pod == some options.desiredRevision

/-- A pod that is not ready because it drains on purpose. -/
def isDraining (draining : Finset String) (pod : Pod) : Bool :=
  !podReady pod && decide (pod.nameAny ∈ draining)

/-- A pod that is not ready for another reason. -/
def isBroken (draining : Finset String) (pod : Pod) : Bool :=
  !podReady pod && !decide (pod.nameAny ∈ draining)

/-- Drains are taken back if there are any, and waited out otherwise. -/
def resumeOr (names : List String) (resume wait : String) : Decision :=
  if names ≠ [] then .resume names resume else .wait wait

/-- The pods in the order of their ordinals. -/
def byOrdinal (pods : List Pod) : List Pod :=
  pods.mergeSort fun a b =>
    decide ((podOrdinal a.nameAny).getD 0 ≤ (podOrdinal b.nameAny).getD 0)

/-- The last pod of a list in that order. -/
def highest (pods : List Pod) (nonempty : pods ≠ []) : Pod :=
  (byOrdinal pods).getLast fun hnil => nonempty ((List.mergeSort_perm pods _).symm.trans
    (List.Perm.of_eq hnil)).eq_nil

/-- The part of the decision for a cluster in which only intentional drains are not ready. -/
def replaceOne (options : RolloutOptions) (current outdated : List Pod)
    (nonempty : outdated ≠ []) (draining : List String) : Decision :=
  if options.replicas < 2 then .blocked "rolling replacement needs at least two brokers"
  else
    match draining with
    | first :: second :: rest =>
      .resume (first :: second :: rest)
        "resumed multiple in-progress drains; only one Broker may be disrupted"
    | [name] => .replace name
    | [] =>
      if options.paused then .paused
      else if options.requireCanaryApproval ∧ current ≠ [] ∧
          options.approvedRevision ≠ options.desiredRevision then .awaitingApproval
      else .replace (highest outdated nonempty).nameAny

/-- A pod that is not ready. -/
def firstUnready (pods : List Pod) : Option Pod := pods.find? fun pod => !podReady pod

def currentPods (pods : List Pod) (options : RolloutOptions) : List Pod := pods.filter (isCurrent options)

def outdatedPods (pods : List Pod) (options : RolloutOptions) : List Pod :=
  pods.filter fun pod => !isCurrent options pod

/-- The names of the outdated pods that drain on purpose. -/
def drainingNames (pods : List Pod) (options : RolloutOptions) (draining : Finset String) : List String :=
  ((outdatedPods pods options).filter (isDraining draining)).map Pod.nameAny

def rolloutDecision (pods : List Pod) (options : RolloutOptions)
    (intentionallyDraining : Finset String) : Decision :=
  if ¬exactBrokerPodSet pods options.replicas then
    .wait s!"waiting for the exact {options.replicas}-Pod Broker ordinal set; observed {pods.length} Pods"
  else if nonempty : outdatedPods pods options = [] then
    match firstUnready (currentPods pods options) with
    | none => .completed
    | some pod => .wait s!"waiting for current broker {pod.nameAny} to become Ready"
  else
    match firstUnready (currentPods pods options) with
    | some pod =>
      resumeOr (drainingNames pods options intentionallyDraining)
        s!"resumed an in-progress drain because current broker {pod.nameAny} is unavailable"
        s!"waiting for replacement broker {pod.nameAny} to become Ready"
    | none =>
      match (outdatedPods pods options).find? (isBroken intentionallyDraining) with
      | some pod =>
        resumeOr (drainingNames pods options intentionallyDraining)
          s!"resumed an in-progress drain because outdated broker {pod.nameAny} is also unavailable"
          s!"outdated broker {pod.nameAny} is not Ready; refusing to make another broker unavailable"
      | none =>
        replaceOne options (currentPods pods options) (outdatedPods pods options) nonempty
          (drainingNames pods options intentionallyDraining)

/-! ### Pods and ordinals -/

/-- The ordinals of the pods are `0, …, replicas - 1`, each once. -/
def Exact (pods : List Pod) (replicas : ℤ) : Prop :=
  ∃ n : ℕ, 0 < n ∧ replicas = n ∧
    (pods.map fun pod => podOrdinal pod.nameAny).Perm ((List.range n).map some)

theorem map_eq_map_some_filterMap {α β : Type*} {f : α → Option β} {l : List α}
    (h : (l.filterMap f).length = l.length) : l.map f = (l.filterMap f).map some := by
  induction l with
  | nil => rfl
  | cons a l ih =>
    cases ha : f a with
    | none =>
      rw [List.filterMap_cons_none ha, List.length_cons] at h
      have hle := List.length_filterMap_le f l
      omega
    | some b =>
      rw [List.filterMap_cons_some ha, List.length_cons, List.length_cons] at h
      rw [List.map_cons, List.filterMap_cons_some ha, List.map_cons, ha, ih (Nat.succ.inj h)]

theorem exactBrokerPodSet_iff {pods : List Pod} {replicas : ℤ} :
    exactBrokerPodSet pods replicas = true ↔ Exact pods replicas := by
  constructor
  · intro h
    unfold exactBrokerPodSet at h
    split_ifs at h with hnegative hcount
    obtain ⟨hcard, hrange⟩ := of_decide_eq_true h
    obtain ⟨hzero, hlength⟩ := not_or.1 hcount
    rw [not_not] at hlength
    -- every pod has an ordinal, and no two have the same
    have hle : (ordinals pods).card ≤ (pods.filterMap fun pod => podOrdinal pod.nameAny).length :=
      List.toFinset_card_le _
    have hall : (pods.filterMap fun pod => podOrdinal pod.nameAny).length = pods.length :=
      le_antisymm (List.length_filterMap_le _ _) (hcard ▸ hle)
    have hnodup : (pods.filterMap fun pod => podOrdinal pod.nameAny).Nodup := by
      refine Multiset.coe_nodup.1 (Multiset.dedup_card_eq_card_iff_nodup.1 ?_)
      exact (hcard.trans hall.symm)
    refine ⟨replicas.toNat, by omega, by omega, ?_⟩
    rw [map_eq_map_some_filterMap hall]
    refine List.Perm.map _ ((List.perm_ext_iff_of_nodup hnodup List.nodup_range).2 fun i => ?_)
    rw [← List.mem_toFinset, List.mem_range, ← Finset.mem_range, ← hrange]
    rfl
  · rintro ⟨n, hpos, rfl, hperm⟩
    have hlength : pods.length = n := by
      simpa using hperm.length_eq
    have hfilter : (pods.filterMap fun pod => podOrdinal pod.nameAny).Perm (List.range n) := by
      have hmap := hperm.filterMap id
      rwa [List.filterMap_map, List.filterMap_map, Function.id_comp, Function.id_comp,
        List.filterMap_some] at hmap
    have hordinals : ordinals pods = Finset.range n := by
      rw [ordinals, List.toFinset_eq_of_perm _ _ hfilter]
      ext i
      rw [List.mem_toFinset, List.mem_range, Finset.mem_range]
    unfold exactBrokerPodSet
    rw [if_neg (by omega), if_neg]
    · rw [hordinals, Int.toNat_natCast, Finset.card_range, hlength]
      simp
    · rw [Int.toNat_natCast, hlength]
      omega

variable {pod : Pod}

/-- Pods with an exact set of ordinals are known by their names. -/
theorem Exact.eq_of_name {pods : List Pod} {replicas : ℤ} (h : Exact pods replicas) {other : Pod}
    (hpod : pod ∈ pods) (hother : other ∈ pods) (hname : pod.nameAny = other.nameAny) :
    pod = other := by
  obtain ⟨n, -, -, hperm⟩ := h
  have hnodup : (pods.map fun pod => podOrdinal pod.nameAny).Nodup :=
    hperm.nodup_iff.2 (List.nodup_range.map (Option.some_injective ℕ))
  exact List.inj_on_of_nodup_map hnodup hpod hother (by rw [hname])

theorem mem_byOrdinal {pods : List Pod} : pod ∈ byOrdinal pods ↔ pod ∈ pods :=
  (List.mergeSort_perm pods _).mem_iff

theorem highest_mem {pods : List Pod} (nonempty : pods ≠ []) : highest pods nonempty ∈ pods :=
  mem_byOrdinal.1 (List.getLast_mem _)

theorem le_highest {pods : List Pod} (nonempty : pods ≠ []) (hpod : pod ∈ pods) :
    (podOrdinal pod.nameAny).getD 0 ≤ (podOrdinal (highest pods nonempty).nameAny).getD 0 := by
  have hsorted : (byOrdinal pods).Pairwise fun a b =>
      decide ((podOrdinal a.nameAny).getD 0 ≤ (podOrdinal b.nameAny).getD 0) = true := by
    refine List.pairwise_mergeSort (fun a b c hab hbc => ?_) (fun a b => ?_) pods
    · rw [decide_eq_true_eq] at hab hbc ⊢
      exact hab.trans hbc
    · rw [Bool.or_eq_true, decide_eq_true_eq, decide_eq_true_eq]
      exact le_total _ _
  have hne : byOrdinal pods ≠ [] := List.ne_nil_of_mem (mem_byOrdinal.2 hpod)
  rw [← List.dropLast_append_getLast hne, List.pairwise_append] at hsorted
  have hmem : pod ∈ byOrdinal pods := mem_byOrdinal.2 hpod
  rw [← List.dropLast_append_getLast hne, List.mem_append, List.mem_singleton] at hmem
  rcases hmem with hfront | hlast
  · exact of_decide_eq_true (hsorted.2.2 pod hfront _ (List.mem_singleton.2 rfl))
  · rw [hlast]
    exact le_rfl

/-! ### The cascade -/

section Cascade

variable {pods : List Pod} {options : RolloutOptions} {draining : Finset String}

/-- Everything that is not ready is an outdated pod that drains on purpose. -/
def Passed (pods : List Pod) (options : RolloutOptions) (draining : Finset String) : Prop :=
  ∀ pod ∈ pods, podReady pod = false → isCurrent options pod = false ∧ pod.nameAny ∈ draining

theorem mem_outdatedPods :
    pod ∈ outdatedPods pods options ↔ pod ∈ pods ∧ isCurrent options pod = false := by
  rw [outdatedPods, List.mem_filter, Bool.not_eq_true']

theorem mem_drainingNames {name : String} :
    name ∈ drainingNames pods options draining ↔
      ∃ pod ∈ pods, pod.nameAny = name ∧ isCurrent options pod = false ∧ podReady pod = false ∧
        name ∈ draining := by
  unfold drainingNames
  rw [List.mem_map]
  constructor
  · rintro ⟨pod, hpod, rfl⟩
    obtain ⟨houtdated, hdrains⟩ := List.mem_filter.1 hpod
    obtain ⟨hmem, hcurrent⟩ := mem_outdatedPods.1 houtdated
    rw [isDraining, Bool.and_eq_true, Bool.not_eq_true', decide_eq_true_eq] at hdrains
    exact ⟨pod, hmem, rfl, hcurrent, hdrains⟩
  · rintro ⟨pod, hmem, rfl, hcurrent, hready, hdrains⟩
    refine ⟨pod, List.mem_filter.2 ⟨mem_outdatedPods.2 ⟨hmem, hcurrent⟩, ?_⟩, rfl⟩
    rw [isDraining, hready, decide_eq_true hdrains]
    rfl

theorem firstUnready_eq_some (h : firstUnready (currentPods pods options) = some pod) :
    pod ∈ pods ∧ podReady pod = false := by
  have hready := List.find?_some h
  rw [Bool.not_eq_true'] at hready
  exact ⟨(List.mem_filter.1 (List.mem_of_find?_eq_some h)).1, hready⟩

theorem firstUnready_eq_none (h : firstUnready (currentPods pods options) = none) (hpod : pod ∈ pods)
    (hcurrent : isCurrent options pod = true) : podReady pod = true := by
  have hnot := List.find?_eq_none.1 h pod (List.mem_filter.2 ⟨hpod, hcurrent⟩)
  simpa using hnot

/-- What a decision may be, and what has been checked by then. -/
inductive Cascade (pods : List Pod) (options : RolloutOptions) (draining : Finset String) : Decision → Prop
  | inexact (inexact : ¬Exact pods options.replicas) (message : String) :
      Cascade pods options draining (.wait message)
  | completed (exact : Exact pods options.replicas)
      (done : ∀ pod ∈ pods, isCurrent options pod = true ∧ podReady pod = true) :
      Cascade pods options draining .completed
  | unready (pod : Pod) (mem : pod ∈ pods) (unready : podReady pod = false) (message : String) :
      Cascade pods options draining (.wait message)
  | undo (pod : Pod) (mem : pod ∈ pods) (unready : podReady pod = false) (message : String) :
      Cascade pods options draining (.resume (drainingNames pods options draining) message)
  | passed (exact : Exact pods options.replicas) (passed : Passed pods options draining)
      (nonempty : outdatedPods pods options ≠ []) :
      Cascade pods options draining (replaceOne options (currentPods pods options)
        (outdatedPods pods options) nonempty (drainingNames pods options draining))

theorem Cascade.resumeOr (hmem : pod ∈ pods) (hready : podReady pod = false) (resume wait : String) :
    Cascade pods options draining (resumeOr (drainingNames pods options draining) resume wait) := by
  unfold Operator.resumeOr
  by_cases hnone : drainingNames pods options draining ≠ []
  · rw [if_pos hnone]
    exact .undo pod hmem hready resume
  · rw [if_neg hnone]
    exact .unready pod hmem hready wait

/-- A cluster without outdated pods. -/
theorem cascade_current (hexact : Exact pods options.replicas) (hnone : outdatedPods pods options = []) :
    Cascade pods options draining
      (match firstUnready (currentPods pods options) with
      | none => .completed
      | some pod => .wait s!"waiting for current broker {pod.nameAny} to become Ready") := by
  have hcurrent : ∀ pod ∈ pods, isCurrent options pod = true := by
    intro pod hpod
    by_contra hnot
    have houtdated := mem_outdatedPods.2 ⟨hpod, Bool.not_eq_true _ ▸ hnot⟩
    rw [hnone] at houtdated
    cases houtdated
  cases hfind : firstUnready (currentPods pods options) with
  | none =>
    exact .completed hexact fun pod hpod =>
      ⟨hcurrent pod hpod, firstUnready_eq_none hfind hpod (hcurrent pod hpod)⟩
  | some pod =>
    obtain ⟨hmem, hready⟩ := firstUnready_eq_some hfind
    exact .unready pod hmem hready _

/-- **The cascade of guards.** -/
theorem cascade (pods : List Pod) (options : RolloutOptions) (draining : Finset String) :
    Cascade pods options draining (rolloutDecision pods options draining) := by
  unfold rolloutDecision
  by_cases hexact : exactBrokerPodSet pods options.replicas = true
  · rw [if_neg (not_not.2 hexact)]
    rw [exactBrokerPodSet_iff] at hexact
    by_cases hnone : outdatedPods pods options = []
    · rw [dif_pos hnone]
      exact cascade_current hexact hnone
    · rw [dif_neg hnone]
      cases hfind : firstUnready (currentPods pods options) with
      | some pod =>
        obtain ⟨hmem, hready⟩ := firstUnready_eq_some hfind
        exact .resumeOr hmem hready _ _
      | none =>
        cases hbroken : (outdatedPods pods options).find? (isBroken draining) with
        | some pod =>
          have hmem := (mem_outdatedPods.1 (List.mem_of_find?_eq_some hbroken)).1
          have hunready := List.find?_some hbroken
          rw [isBroken, Bool.and_eq_true, Bool.not_eq_true'] at hunready
          exact .resumeOr hmem hunready.1 _ _
        | none =>
          refine .passed hexact (fun pod hpod hready => ?_) hnone
          have hcurrent : isCurrent options pod = false := by
            by_contra hnot
            rw [Bool.not_eq_false] at hnot
            rw [firstUnready_eq_none hfind hpod hnot] at hready
            cases hready
          have hnot := List.find?_eq_none.1 hbroken pod (mem_outdatedPods.2 ⟨hpod, hcurrent⟩)
          rw [isBroken, hready] at hnot
          exact ⟨hcurrent, by simpa using hnot⟩
  · rw [if_pos hexact]
    exact .inexact (mt exactBrokerPodSet_iff.2 hexact) _

/-- What the end of the cascade may be. -/
inductive Ending (pods : List Pod) (options : RolloutOptions) (draining : Finset String)
    (nonempty : outdatedPods pods options ≠ []) : Decision → Prop
  | blocked (message : String) : Ending pods options draining nonempty (.blocked message)
  | paused : Ending pods options draining nonempty .paused
  | awaitingApproval : Ending pods options draining nonempty .awaitingApproval
  | undo (message : String) :
      Ending pods options draining nonempty (.resume (drainingNames pods options draining) message)
  | draining (name : String) (few : 2 ≤ options.replicas)
      (single : drainingNames pods options draining = [name]) :
      Ending pods options draining nonempty (.replace name)
  | chosen (few : 2 ≤ options.replicas) (none : drainingNames pods options draining = [])
      (running : options.paused = false)
      (approved : options.requireCanaryApproval = false ∨ currentPods pods options = [] ∨
        options.approvedRevision = some options.desiredRevision) :
      Ending pods options draining nonempty (.replace (highest _ nonempty).nameAny)

theorem ending (nonempty : outdatedPods pods options ≠ []) :
    Ending pods options draining nonempty (replaceOne options (currentPods pods options)
      (outdatedPods pods options) nonempty (drainingNames pods options draining)) := by
  unfold replaceOne
  by_cases hfew : options.replicas < 2
  · rw [if_pos hfew]
    exact .blocked _
  · rw [if_neg hfew]
    cases hnames : drainingNames pods options draining with
    | nil =>
      by_cases hpaused : options.paused = true
      · rw [if_pos hpaused]
        exact .paused
      · rw [if_neg hpaused]
        by_cases happroval : options.requireCanaryApproval ∧ currentPods pods options ≠ [] ∧
            options.approvedRevision ≠ options.desiredRevision
        · rw [if_pos happroval]
          exact .awaitingApproval
        · rw [if_neg happroval]
          refine .chosen (not_lt.1 hfew) hnames (by simpa using hpaused) ?_
          by_contra hnot
          rw [not_or, not_or, Bool.not_eq_false] at hnot
          exact happroval hnot
    | cons first rest =>
      cases rest with
      | nil => exact .draining first (not_lt.1 hfew) hnames
      | cons second rest =>
        show Ending pods options draining nonempty (.resume (first :: second :: rest) _)
        rw [← hnames]
        exact .undo _

theorem isCurrent_iff :
    isCurrent options pod = true ↔ podRevision pod = some options.desiredRevision := by
  rw [isCurrent, beq_iff_eq]

theorem isCurrent_eq_false :
    isCurrent options pod = false ↔ podRevision pod ≠ some options.desiredRevision := by
  rw [← Bool.not_eq_true, isCurrent_iff]

/-- The only drain of a cluster is the only pod that is not ready. -/
theorem Passed.ready_of_single (h : Passed pods options draining) (hexact : Exact pods options.replicas)
    (hpod : pod ∈ pods) (hnames : drainingNames pods options draining = [pod.nameAny]) {other : Pod}
    (hother : other ∈ pods) (hne : other ≠ pod) : podReady other = true := by
  by_contra hready
  rw [Bool.not_eq_true] at hready
  obtain ⟨hcurrent, hdrains⟩ := h other hother hready
  have hname := mem_drainingNames.2 ⟨other, hother, rfl, hcurrent, hready, hdrains⟩
  rw [hnames, List.mem_singleton] at hname
  exact hne (hexact.eq_of_name hother hpod hname)

theorem Passed.ready_of_none (h : Passed pods options draining)
    (hnames : drainingNames pods options draining = []) {other : Pod} (hother : other ∈ pods) :
    podReady other = true := by
  by_contra hready
  rw [Bool.not_eq_true] at hready
  obtain ⟨hcurrent, hdrains⟩ := h other hother hready
  have hname := mem_drainingNames.2 ⟨other, hother, rfl, hcurrent, hready, hdrains⟩
  rw [hnames] at hname
  cases hname

theorem Exact.exists_ordinal {replicas : ℤ} (h : Exact pods replicas) (hpod : pod ∈ pods) :
    ∃ i, podOrdinal pod.nameAny = some i := by
  obtain ⟨n, -, -, hperm⟩ := h
  have hmem := hperm.mem_iff.1 (List.mem_map_of_mem hpod)
  obtain ⟨i, -, hi⟩ := List.mem_map.1 hmem
  exact ⟨i, hi.symm⟩

end Cascade

/-- **A replacement disrupts one broker.**  A pod is replaced only in a complete cluster of at least two
brokers, when it is outdated and every other pod is ready; either it drains already, or the rollout may
go on and it has the highest ordinal of the outdated pods.  The rollout is completed exactly when the
cluster is complete, current and ready, and the drains that are taken back are all drains of outdated
pods. -/
theorem replaces_one_broker (pods : List Pod) (options : RolloutOptions) (draining : Finset String) :
    (∀ name, rolloutDecision pods options draining = .replace name →
      Exact pods options.replicas ∧ 2 ≤ options.replicas ∧
      ∃ pod ∈ pods, pod.nameAny = name ∧ podRevision pod ≠ some options.desiredRevision ∧
        (∀ other ∈ pods, other ≠ pod → podReady other = true) ∧
        (podReady pod = false ∧ name ∈ draining ∨
          options.paused = false ∧
          (options.requireCanaryApproval = false ∨
            (∀ other ∈ pods, podRevision other ≠ some options.desiredRevision) ∨
            options.approvedRevision = some options.desiredRevision) ∧
          ∃ i, podOrdinal name = some i ∧
            ∀ other ∈ pods, podRevision other ≠ some options.desiredRevision →
              ∃ j, podOrdinal other.nameAny = some j ∧ j ≤ i)) ∧
    (rolloutDecision pods options draining = .completed ↔
      Exact pods options.replicas ∧
        ∀ pod ∈ pods, podRevision pod = some options.desiredRevision ∧ podReady pod = true) ∧
    ∀ names message, rolloutDecision pods options draining = .resume names message →
      ∀ name, name ∈ names ↔ ∃ pod ∈ pods, pod.nameAny = name ∧
        podRevision pod ≠ some options.desiredRevision ∧ podReady pod = false ∧ name ∈ draining := by
  have hcascade := cascade pods options draining
  simp only [← isCurrent_eq_false, ← isCurrent_iff]
  refine ⟨fun name hdecision => ?_, ⟨fun hdecision => ?_, fun ⟨hexact, hdone⟩ => ?_⟩,
    fun names message hdecision name => ?_⟩
  · rw [hdecision] at hcascade
    generalize hgiven : Decision.replace name = given at hcascade
    cases hcascade with
    | inexact | completed | unready | undo => cases hgiven
    | passed hexact hpassed nonempty =>
      have hending := @ending pods options draining nonempty
      rw [← hgiven] at hending
      generalize hname : Decision.replace name = given' at hending
      cases hending with
      | blocked | paused | awaitingApproval | undo => cases hname
      | draining single hfew hsingle =>
        cases hname
        obtain ⟨pod, hpod, rfl, hcurrent, hready, hdrains⟩ := mem_drainingNames.1
          (hsingle ▸ List.mem_singleton.2 rfl)
        exact ⟨hexact, hfew, pod, hpod, rfl, hcurrent,
          fun other => hpassed.ready_of_single hexact hpod hsingle, Or.inl ⟨hready, hdrains⟩⟩
      | chosen hfew hnone hpaused happroval =>
        cases hname
        obtain ⟨hpod, hcurrent⟩ := mem_outdatedPods.1 (highest_mem nonempty)
        refine ⟨hexact, hfew, _, hpod, rfl, hcurrent,
          fun other hother _ => hpassed.ready_of_none hnone hother, Or.inr ⟨hpaused, ?_, ?_⟩⟩
        · refine happroval.imp_right (Or.imp_left fun hcurrents other hother => ?_)
          have hnot := List.filter_eq_nil_iff.1 hcurrents other hother
          rwa [Bool.not_eq_true] at hnot
        · obtain ⟨i, hi⟩ := hexact.exists_ordinal hpod
          refine ⟨i, hi, fun other hother houtdated => ?_⟩
          obtain ⟨j, hj⟩ := hexact.exists_ordinal hother
          have hle := le_highest nonempty (mem_outdatedPods.2 ⟨hother, houtdated⟩)
          rw [hi, hj] at hle
          exact ⟨j, hj, hle⟩
  · rw [hdecision] at hcascade
    generalize hgiven : Decision.completed = given at hcascade
    cases hcascade with
    | completed hexact hdone => exact ⟨hexact, hdone⟩
    | inexact | unready | undo => cases hgiven
    | passed _ _ nonempty =>
      have hending := @ending pods options draining nonempty
      rw [← hgiven] at hending
      cases hending
  · generalize rolloutDecision pods options draining = given at hcascade
    cases hcascade with
    | completed => rfl
    | inexact hinexact => exact absurd hexact hinexact
    | unready pod hpod hready | undo pod hpod hready =>
      rw [(hdone pod hpod).2] at hready
      cases hready
    | passed _ _ nonempty =>
      obtain ⟨hpod, hcurrent⟩ := mem_outdatedPods.1 (highest_mem nonempty)
      rw [(hdone _ hpod).1] at hcurrent
      cases hcurrent
  · rw [hdecision] at hcascade
    generalize hgiven : Decision.resume names message = given at hcascade
    cases hcascade with
    | inexact | completed | unready => cases hgiven
    | undo =>
      cases hgiven
      exact mem_drainingNames
    | passed _ _ nonempty =>
      have hending := @ending pods options draining nonempty
      rw [← hgiven] at hending
      cases hending
      exact mem_drainingNames

/-- A ready broker and a draining one, both without a revision. -/
def drainingPair : List Pod :=
  [⟨"broker-0", none, none, some [⟨"Ready", "True"⟩]⟩,
    ⟨"broker-1", none, none, none⟩]

theorem replaces_one_broker_drainingPair :
    rolloutDecision drainingPair ⟨2, "b", true, false, none⟩ {"broker-1"} = .replace "broker-1" ∧
      Exact drainingPair 2 := by
  have hdecision : rolloutDecision drainingPair ⟨2, "b", true, false, none⟩ {"broker-1"} =
      .replace "broker-1" := by decide +kernel
  exact ⟨hdecision, ((replaces_one_broker _ _ _).1 _ hdecision).1⟩

end RustQueue.Operator
