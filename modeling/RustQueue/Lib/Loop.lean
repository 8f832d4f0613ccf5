import Mathlib.Tactic

/-!
# Loops

A loop is given by what happens at its head: it is left, or its body runs and leaves it, or its body
runs and the loop goes on.  `Ends` says that a loop ends, with the number of times its body runs; a loop
that runs on for ever ends for no number.  `loop` computes the result for a bound on that number.

* `loop_ends`, `loop_isSome`: the result is that of the loop, and a measure gives a bound that suffices;
* `Ends.rule`: what every turn keeps holds where the loop ends.
-/

namespace RustQueue.Lib

variable {α β : Type*}

/-- What happens at the head of a loop. -/
inductive Turn (α β : Type*) where
  | exit (result : β)
  | leave (result : β)
  | next (state : α)

/-- The loop ends with a result after its body has run so many times. -/
inductive Ends (turn : α → Turn α β) : ℕ → α → β → Prop
  | exit {a : α} {b : β} (h : turn a = .exit b) : Ends turn 0 a b
  | leave {a : α} {b : β} (h : turn a = .leave b) : Ends turn 1 a b
  | next {n : ℕ} {a a' : α} {b : β} (h : turn a = .next a') (rest : Ends turn n a' b) :
      Ends turn (n + 1) a b

/-- The result of a loop whose body runs at most `fuel` times, `none` if it is still running then. -/
def loop (turn : α → Turn α β) : ℕ → α → Option β
  | 0, a =>
    match turn a with
    | .exit b => some b
    | _ => none
  | fuel + 1, a =>
    match turn a with
    | .exit b | .leave b => some b
    | .next a => loop turn fuel a

/-- The turn goes on in `I`, or ends in `Q`. -/
def Turn.Keeps (I : α → Prop) (Q : β → Prop) : Turn α β → Prop
  | .exit b | .leave b => Q b
  | .next a => I a

/-- A turn that runs the body has some of `n` left, and goes on with less. -/
def Turn.Lowers (measure : α → ℕ) (n : ℕ) : Turn α β → Prop
  | .exit _ => True
  | .leave _ => 0 < n
  | .next a => measure a < n

variable {turn : α → Turn α β} {n : ℕ} {a : α} {b : β}

/-- What every turn keeps holds where the loop ends. -/
theorem Ends.rule {I : α → Prop} {Q : β → Prop} (hturn : ∀ a, I a → (turn a).Keeps I Q)
    (h : Ends turn n a b) (ha : I a) : Q b := by
  induction h with
  | exit h | leave h => simpa [h, Turn.Keeps] using hturn _ ha
  | next h _ ih => exact ih (by simpa [h, Turn.Keeps] using hturn _ ha)

theorem loop_ends {fuel : ℕ} (h : loop turn fuel a = some b) : ∃ turns ≤ fuel, Ends turn turns a b := by
  fun_induction loop turn fuel a with
  | case1 a b' hturn | case3 fuel a b' hturn =>
    obtain rfl := Option.some.inj h
    exact ⟨0, Nat.zero_le _, .exit hturn⟩
  | case2 => cases h
  | case4 fuel a b' hturn =>
    obtain rfl := Option.some.inj h
    exact ⟨1, Nat.le_add_left _ _, .leave hturn⟩
  | case5 fuel a a' hturn ih =>
    obtain ⟨turns, hturns, hends⟩ := ih h
    exact ⟨turns + 1, Nat.succ_le_succ hturns, .next hturn hends⟩

/-- A loop in which every turn lowers a measure needs no more turns than it says. -/
theorem loop_isSome {measure : α → ℕ} (hturn : ∀ a, (turn a).Lowers measure (measure a)) {fuel : ℕ}
    (hfuel : measure a ≤ fuel) : (loop turn fuel a).isSome := by
  fun_induction loop turn fuel a with
  | case1 | case3 | case4 => rfl
  | case2 a hrun =>
    have := hturn a
    cases hnext : turn a with
    | exit b => exact absurd hnext (hrun b)
    | leave b | next a' => simp only [hnext, Turn.Lowers] at this; omega
  | case5 fuel a a' hnext ih =>
    have := hturn a
    simp only [hnext, Turn.Lowers] at this
    exact ih (by omega)

end RustQueue.Lib
