import MiRelay.Android.DirectoryVersions
import MiRelay.Client.UploadMetadata
import MiRelay.Directory.Compare

/-!
# Names of files

The phone, the upload client, the relay and the receiver each check names on their
own. The checks are nested: a relative path that the phone takes passes the relay's
check, and the last component of such a path passes every later one; so does the
name that the phone makes of whatever a provider shows.
-/

namespace MiRelay.Android

namespace InputRules

/-- `String.trim` of Kotlin. -/
def trim (cs : List Char) : List Char :=
  ((cs.dropWhile DirectoryPaths.isWhitespace).reverse.dropWhile DirectoryPaths.isWhitespace).reverse

/-- One code point more, if it still fits. -/
def keep (kept : List Char × Nat) (c : Char) : List Char × Nat :=
  if kept.2 + c.utf8Size ≤ 255 then (kept.1 ++ [c], kept.2 + c.utf8Size) else kept

/-- `InputRules.filename`. -/
def filename (value : Option String) : String :=
  let clean := trim ((value.getD "").toList.map fun c =>
    if isControl c || c == '/' || c == '\\' then '_' else c)
  let candidate :=
    if clean = [] ∨ clean = ['.'] ∨ clean = ['.', '.'] then "Shared file".toList else clean
  String.ofList (candidate.foldl keep ([], 0)).1

/-- What is kept of the code points seen so far: all of them, or nearly as much as fits. -/
structure Kept (seen : List Char) (kept : List Char × Nat) : Prop where
  size : kept.2 = utf8Len kept.1
  le : kept.2 ≤ 255
  subset : kept.1 ⊆ seen
  whole : kept.1 = seen ∨ 251 < kept.2

theorem Kept.foldl {seen cs : List Char} {kept : List Char × Nat} (h : Kept seen kept) :
    Kept (seen ++ cs) (cs.foldl keep kept) := by
  induction cs generalizing seen kept with
  | nil =>
    rw [List.append_nil]
    exact h
  | cons c cs ih =>
    rw [List.foldl_cons, ← List.singleton_append, ← List.append_assoc]
    refine ih ?_
    have hsize := c.utf8Size_le_four
    unfold keep
    split
    · rename_i hfits
      refine ⟨?_, hfits, List.append_subset.mpr ⟨List.subset_append_of_subset_left _ h.subset,
        List.subset_append_right _ _⟩, ?_⟩
      · rw [utf8Len, List.map_append, List.sum_append, ← utf8Len, ← h.size]
        simp
      · refine h.whole.imp (fun heq => by rw [heq]) fun hlarge => ?_
        dsimp only
        omega
    · exact ⟨h.size, h.le, List.subset_append_of_subset_left _ h.subset, .inr (by omega)⟩

end InputRules

end MiRelay.Android
