import MiRelay.Client.DirectoryReceipts
import MiRelay.Directory.RootScan

/-!
# What the receiver leaves beside its targets

Besides the target of a version the receiver gives files only names of its own:
the copy that comes in and the file that is retained. The scan skips these
names, hence no inventory ever lists such a file.
-/

namespace MiRelay

open Proc

/-- The place where a step puts a file. -/
def ReceiverStep.leaves : ReceiverStep → Option (String × String)
  | .staged place _ => some place
  | .moved _ target => some target
  | .exchanged source _ => some source
  | _ => none

/-- A file goes to the target of a valid version or under a reserved name. -/
def ReceiverStep.Tidy (e : ReceiverStep) : Prop :=
  ∀ place, e.leaves = some place → (∃ version : DirectoryEntry,
    (reportOf version).validate = .ok () ∧ place = placeOf version.path) ∨
      reserved place.2.toList = true

/-- A name behind one of the receiver's leads is reserved. -/
theorem reserved_of_stripLead {lead name id : String} (h : stripLead lead name = some id)
    (hlead : reserved lead.toList = true) : reserved name.toList = true := by
  unfold stripLead at h
  split at h
  · rename_i hbegins
    rw [List.isPrefixOf_iff_prefix] at hbegins
    rw [reserved, List.isPrefixOf_iff_prefix] at hlead ⊢
    exact hlead.trans (hbegins.map _)
  · contradiction

theorem reserved_append {lead id : String} (hlead : reserved lead.toList = true) :
    reserved (lead ++ id).toList = true := by
  rw [reserved, List.isPrefixOf_iff_prefix] at hlead ⊢
  rw [String.toList_append, List.map_append]
  exact hlead.trans (List.prefix_append _ _)

namespace ReceiverProc

variable {sha256 : Bytes → String} {α : Type}

end ReceiverProc

/-- No component of a listed path is reserved, so nothing stands listed under a reserved name. -/
theorem placeOf_ne_of_reserved {path : String} (h : ∀ part ∈ components path, reserved part = false)
    {place : String × String} (hplace : reserved place.2.toList = true) : placeOf path ≠ place := by
  rintro rfl
  have hlast : (components path).getLast? ≠ none := by
    rw [ne_eq, List.getLast?_eq_none_iff]
    exact List.splitOn_ne_nil _ _
  obtain ⟨part, hpart⟩ := Option.ne_none_iff_exists'.mp hlast
  rw [placeOf, fileName, hpart, Option.getD_some, String.toList_ofList,
    h part (List.mem_of_getLast? hpart)] at hplace
  contradiction

/-- The serialized entries of the inventory below. -/
def sampleJson : String :=
  "[\x7b\"path\":\"a.txt\",\"sha256\":\"8f434346648f6b96df89dda901c5176b10a6d83961dd3c1ac88b59b2dc327aa4\",\"size\":2\x7d,\x7b\"path\":\"d/b\",\"sha256\":\"8f434346648f6b96df89dda901c5176b10a6d83961dd3c1ac88b59b2dc327aa4\",\"size\":2\x7d]"

/-- The digests of the two files and of the serialized entries. -/
def sampleDigest (bytes : Bytes) : String :=
  if bytes = [104, 105] then "8f434346648f6b96df89dda901c5176b10a6d83961dd3c1ac88b59b2dc327aa4"
  else if bytes = sampleJson.toUTF8.toList then
    "c03edeed05b0374ca9957a26594295c1cbab6a519005c5e1250b2d400b9cbeb2"
  else "0000000000000000000000000000000000000000000000000000000000000000"

end MiRelay
