import Mathlib.Tactic

/-!
# A file that is replaced atomically

A new version is written beside the file, synced, renamed over the file, and made durable by a
sync of the directory.  A store can fail before the rename, which changes nothing, or after it,
which leaves the new version visible and a crash free to bring back an older one.  `survivors` are
the versions that a crash may leave.
-/

namespace RustQueue.Lib

variable {α : Type*}

/-- A file with the versions that may be on disk after a crash; `none` is no file. -/
structure AtomicFile (α : Type*) where
  content : Option α
  survivors : List (Option α)

/-- How a store ends. -/
inductive StoreEnd where
  | synced
  | failed
  | renamed
  deriving DecidableEq, Repr

namespace AtomicFile

/-- No file. -/
def missing : AtomicFile α := ⟨none, [none]⟩

def store (file : AtomicFile α) (value : α) : StoreEnd → AtomicFile α
  | .synced => ⟨some value, [some value]⟩
  | .failed => file
  | .renamed => ⟨some value, some value :: file.survivors⟩

/-- What the next start finds: the visible version if the machine stayed up, or a survivor. -/
inductive Restart (file : AtomicFile α) : AtomicFile α → Prop
  | process : Restart file file
  | machine {version : Option α} (h : version ∈ file.survivors) :
      Restart file ⟨version, [version]⟩

/-- Every version that is or may come to light. -/
def All (P : Option α → Prop) (file : AtomicFile α) : Prop :=
  P file.content ∧ ∀ version ∈ file.survivors, P version

variable {P Q : Option α → Prop} {file file' : AtomicFile α}

theorem All.imp (h : file.All P) (himp : ∀ version, P version → Q version) : file.All Q :=
  ⟨himp _ h.1, fun version hmem => himp _ (h.2 version hmem)⟩

theorem All.store (h : file.All P) {value : α} (hvalue : P (some value)) (storeEnd : StoreEnd) :
    (file.store value storeEnd).All P := by
  cases storeEnd with
  | synced => exact ⟨hvalue, by simpa [AtomicFile.store] using hvalue⟩
  | failed => exact h
  | renamed =>
    refine ⟨hvalue, fun version hmem => ?_⟩
    rcases List.mem_cons.1 hmem with rfl | hmem
    · exact hvalue
    · exact h.2 version hmem

/-- After a store that was synced nothing else can come to light. -/
theorem all_store_synced (file : AtomicFile α) {value : α} (hvalue : P (some value)) :
    (file.store value .synced).All P :=
  ⟨hvalue, by simpa [AtomicFile.store] using hvalue⟩

theorem All.restart (h : file.All P) (hrestart : file.Restart file') : file'.All P := by
  cases hrestart with
  | process => exact h
  | machine hmem => exact ⟨h.2 _ hmem, by simpa using h.2 _ hmem⟩

end AtomicFile

end RustQueue.Lib
