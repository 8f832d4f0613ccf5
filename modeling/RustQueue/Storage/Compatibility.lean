import RustQueue.Lib.Result
import RustQueue.Lib.Saturating

/-!
# Compatibility of a data directory

A data directory remembers the feature level of its writer.  A broker asks for a level when it
opens the directory: the level is in the range of the binary, is never lowered, and is the active
level from then on.
-/

namespace RustQueue.Storage

open Lib

def baseStorageFeatureLevel : ℕ := 1

def dataFormatVersion : ℕ := 7

/-- What a binary can read and write. -/
structure BinaryCapabilities where
  minimumReaderFeatureLevel : ℕ
  maximumReaderFeatureLevel : ℕ
  maximumWriterFeatureLevel : ℕ
  deriving DecidableEq, Repr

structure CompatibilityState where
  dataFormat : ℕ
  activeWriterFeatureLevel : ℕ
  minimumReaderFeatureLevel : ℕ
  generation : ℕ
  deriving DecidableEq, Repr

/-- The capabilities of a binary that knows the levels up to `maximum`. -/
def binaryCapabilities (maximum : ℕ) : BinaryCapabilities where
  minimumReaderFeatureLevel := baseStorageFeatureLevel
  maximumReaderFeatureLevel := maximum
  maximumWriterFeatureLevel := maximum

/-- The state of the directory before it was ever opened. -/
def CompatibilityState.base : CompatibilityState where
  dataFormat := dataFormatVersion
  activeWriterFeatureLevel := baseStorageFeatureLevel
  minimumReaderFeatureLevel := baseStorageFeatureLevel
  generation := 1

def CompatibilityState.raise (state : CompatibilityState) (requested : ℕ) : CompatibilityState :=
  if state.activeWriterFeatureLevel < requested then
    { state with
      activeWriterFeatureLevel := requested
      minimumReaderFeatureLevel := max state.minimumReaderFeatureLevel requested
      generation := satAdd u64Max state.generation 1 }
  else state

/-- The state that is written back, from the stored one. -/
def prepareWithCapabilities (stored : Option CompatibilityState) (requested : ℕ)
    (capabilities : BinaryCapabilities) : Except String CompatibilityState :=
  let state := stored.getD .base
  if requested < capabilities.minimumReaderFeatureLevel ∨
      capabilities.maximumWriterFeatureLevel < requested then
    .error s!"requested storage feature level {requested} is outside binary writer range {capabilities.minimumReaderFeatureLevel}..={capabilities.maximumWriterFeatureLevel}"
  else if state.dataFormat ≠ dataFormatVersion then
    .error "compatibility state has the wrong data format"
  else if capabilities.maximumReaderFeatureLevel < state.minimumReaderFeatureLevel then
    .error s!"rollback fence requires reader feature level {state.minimumReaderFeatureLevel}, binary supports only {capabilities.maximumReaderFeatureLevel}"
  else if requested < state.activeWriterFeatureLevel then
    .error s!"rollback fence forbids lowering storage feature level from {state.activeWriterFeatureLevel} to {requested}"
  else .ok (state.raise requested)

/-- The active level is the one that was asked for, and no binary writes below its lowest level. -/
theorem prepareWithCapabilities_eq_ok {stored : Option CompatibilityState} {requested : ℕ}
    {capabilities : BinaryCapabilities} {state : CompatibilityState}
    (h : prepareWithCapabilities stored requested capabilities = .ok state) :
    state.activeWriterFeatureLevel = requested ∧
      capabilities.minimumReaderFeatureLevel ≤ requested := by
  unfold prepareWithCapabilities at h
  dsimp only at h
  split_ifs at h with hrange hformat hreader hlower
  cases h
  refine ⟨?_, by omega⟩
  unfold CompatibilityState.raise
  split_ifs with hraise
  · rfl
  · omega

end RustQueue.Storage
