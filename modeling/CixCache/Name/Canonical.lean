import CixCache.Name.Suffix

/-!
Contract: architecture, release and canonical form of a published name, as the
store computes them from offsets into the name.

Owns: `archOffset`, `storeArchOf`, `releaseOffset`, `hasVersion` and
`storeCanonicalName`, each with the source's index loops; `canonicalForm`, the
output of a successful canonicalisation; and the architecture-qualified
spelling `archName` with its form cut to a STORE_NAME_MAX buffer.

Does not own: why canonical form is a fixed point (`Name.Parts`).
-/

namespace CixCache

/-- `uname -m` spellings. -/
def gArches : List Bytes :=
  [ascii "x86_64", ascii "aarch64", ascii "armv7l", ascii "riscv64"]

/-- The test of one architecture in the loop of `arch_offset`. -/
def archAt (name : Bytes) (stem : Nat) (arch : Bytes) : Bool :=
  decide (arch.length + 1 < stem) &&
    name[stem - arch.length - 1]? == some dash &&
    (name.drop (stem - arch.length)).take arch.length == arch

/-- Offset of the architecture inside a stem, or 0 when it carries none. -/
def archOffset (name : Bytes) (stem : Nat) : Nat :=
  match gArches.find? (archAt name stem) with
  | some arch => stem - arch.length
  | none => 0

/-- The architecture encoded in a name: the table entry equal to the text
behind the offset. -/
def storeArchOf (name : Bytes) : Option Bytes :=
  let stem := stemLen name
  let offset := archOffset name stem
  if offset = 0 then none
  else gArches.find? fun arch =>
    (name.drop offset).take (stem - offset) == arch.take (stem - offset) &&
      arch.length == stem - offset

/-- `for (i = stem; i > 0; i--)` looking for the last hyphen. -/
def lastDash (name : Bytes) : Nat → Nat
  | 0 => 0
  | i + 1 => if name[i]? = some dash then i else lastDash name i

/-- The loop that sets `version_before`, from the hyphen down to the previous one. -/
def versionBefore (name : Bytes) (found : Bool) : Nat → Bool
  | 0 => found
  | i + 1 =>
      if name[i]? = some dash then found
      else versionBefore name (found || (name[i]?).any isDigit) i

/-- Offset of the first digit of the release inside a stem, or 0. -/
def releaseOffset (name : Bytes) (stem : Nat) : Nat :=
  let hyphen := lastDash name stem
  if hyphen = 0 ∨ stem ≤ hyphen + 1 then 0
  else if (slice name (hyphen + 1) stem).all isDigit = false then 0
  else if versionBefore name false hyphen = false then 0
  else hyphen + 1

/-- Whether the stem's last hyphen-separated component contains a digit. -/
def hasVersion (name : Bytes) : Nat → Bool
  | 0 => false
  | i + 1 =>
      if name[i]? = some dash then false
      else if (name[i]?).any isDigit then true
      else hasVersion name i

/-- `while (z + 1 < stem && name[z] == '0') z++`; the first argument bounds the
iterations and `stem` of them always suffice. -/
def skipZeros (name : Bytes) (stem : Nat) : Nat → Nat → Nat
  | 0, z => z
  | fuel + 1, z =>
      if z + 1 < stem ∧ name[z]? = some zero then skipZeros name stem fuel (z + 1)
      else z

/-- The text the release rule renders from a stem length and the suffix text
behind it. -/
def canonicalText (name : Bytes) (stem : Nat) (suffix : Bytes) : Bytes :=
  let rel := releaseOffset name stem
  if rel = 0 then
    -- A release qualifies a version, so a name without one is left alone.
    if hasVersion name stem = false then name.take stem ++ suffix
    else name.take stem ++ ascii "-1" ++ suffix
  else
    name.take (rel - 1) ++ dash :: slice name (skipZeros name stem stem rel) stem ++ suffix

/-- Canonical form of a name: `none` for -1, otherwise the output and whether
it differs from the name. The output buffer holds STORE_NAME_MAX bytes, as
every caller's does. -/
def storeCanonicalName (name : Bytes) : Option (Bytes × Bool) :=
  if storeNameIsValid name = false then none
  else
    let ext := (storeSuffixOf name).getD []
    let stem := name.length - ext.length
    let arch := archOffset name stem
    let out :=
      if arch ≠ 0 then
        canonicalText name (arch - 1) (snprintf 80 (dash :: slice name arch stem ++ ext))
      else canonicalText name stem (snprintf 80 ext)
    if storeNameMax ≤ out.length then none else some (out, out != name)

/-- The output of a successful canonicalisation. -/
def canonicalForm (name : Bytes) : Option Bytes :=
  (storeCanonicalName name).map Prod.fst

/-- `"%.*s-%s%s"` of a stem, an architecture and a suffix. -/
def archName (name arch : Bytes) : Bytes :=
  name.take (stemLen name) ++ dash :: arch ++ (storeSuffixOf name).getD []

theorem storeCanonicalName_valid {name out : Bytes} {differs : Bool}
    (canonical : storeCanonicalName name = some (out, differs)) :
    storeNameIsValid name = true := by
  by_contra invalid
  simp [storeCanonicalName, Bool.eq_false_iff.mpr invalid] at canonical

theorem canonicalForm_valid {name out : Bytes} (canonical : canonicalForm name = some out) :
    storeNameIsValid name = true := by
  obtain ⟨⟨_, _⟩, found, _⟩ := Option.map_eq_some_iff.mp canonical
  exact storeCanonicalName_valid found

/-- The result 1 of the source means exactly that the output differs. -/
theorem storeCanonicalName_of_canonicalForm {name out : Bytes}
    (canonical : canonicalForm name = some out) :
    storeCanonicalName name = some (out, out != name) := by
  obtain ⟨⟨text, differs⟩, found, rfl⟩ := Option.map_eq_some_iff.mp canonical
  rw [found]
  unfold storeCanonicalName at found
  split at found
  · contradiction
  · simp only [Option.ite_none_left_eq_some, Option.some.injEq, Prod.mk.injEq] at found
    obtain ⟨_, shape, flag⟩ := found
    rw [← flag, shape]

example : canonicalForm (ascii "mtools-4.0.49.tar.gz") = some (ascii "mtools-4.0.49-1.tar.gz") := by
  decide

end CixCache
