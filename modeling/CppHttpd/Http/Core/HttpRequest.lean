import CppHttpd.Foundation.Bytes
import Mathlib.Data.List.AList
import Mathlib.Data.List.Induction

/-!
# Requests

Header maps are `std::unordered_map<std::string, std::string>`: keys are
distinct by construction, and no statement may depend on the order of entries.
-/

namespace CppHttpd

open CppHttpd.Foundation

abbrev HeaderMap := AList (fun _ : Bytes => Bytes)

inductive Method where
  | GET
  | POST
  | HEAD
  | OPTIONS
  deriving DecidableEq, Repr

/-- `to_string(Method)`. -/
def Method.toBytes : Method → Bytes
  | .GET => ascii "GET"
  | .POST => ascii "POST"
  | .HEAD => ascii "HEAD"
  | .OPTIONS => ascii "OPTIONS"

/-- Of the values that are stored under a name the map holds the last. -/
theorem lookup_foldl_insert {α : Type*} (name value : α → Bytes) (key : Bytes) (fields : List α)
    (m : HeaderMap) :
    (fields.foldl (fun m field => m.insert (name field) (value field)) m).lookup key =
      ((fields.filter (name · = key)).getLast?.map value).or (m.lookup key) := by
  induction fields using List.reverseRecOn generalizing m with
  | nil => rfl
  | append_singleton fields field ih =>
      rw [List.foldl_append, List.filter_append]
      by_cases hkey : name field = key
      · subst hkey
        simp
      · rw [List.foldl_cons, List.foldl_nil, AList.lookup_insert_ne (Ne.symm hkey), ih]
        simp [hkey]

theorem mem_foldl_insert {α : Type*} (name value : α → Bytes) (key : Bytes) (fields : List α)
    (m : HeaderMap) :
    key ∈ fields.foldl (fun m field => m.insert (name field) (value field)) m ↔
      (∃ field ∈ fields, name field = key) ∨ key ∈ m := by
  induction fields generalizing m with
  | nil => simp
  | cons field fields ih =>
      rw [List.foldl_cons, ih, AList.mem_insert, List.exists_mem_cons_iff, @eq_comm _ key]
      exact or_left_comm.trans or_assoc.symm

/-- Under names that are new, every field becomes an entry of its own. -/
theorem entries_foldl_insert {α : Type*} (name value : α → Bytes) (fields : List α)
    (m : HeaderMap) (hfresh : ∀ field ∈ fields, name field ∉ m)
    (hdistinct : (fields.map name).Nodup) :
    (fields.foldl (fun m field => m.insert (name field) (value field)) m).entries =
      (fields.map fun field => ⟨name field, value field⟩).reverse ++ m.entries := by
  induction fields generalizing m with
  | nil => rfl
  | cons field fields ih =>
      rw [List.map_cons, List.nodup_cons] at hdistinct
      have hnew : name field ∉ m := hfresh field (by simp)
      have htail := ih (m.insert (name field) (value field)) (fun other hmem => by
        rw [AList.mem_insert, not_or]
        refine ⟨fun heq => hdistinct.1 ?_, hfresh other (by simp [hmem])⟩
        rw [← heq]
        exact List.mem_map_of_mem hmem) hdistinct.2
      rw [List.foldl_cons, htail, AList.entries_insert_of_notMem hnew]
      simp

structure HttpRequest where
  method : Method := .GET
  methodStr : Bytes := ascii "GET"
  uri : Bytes := []
  headers : HeaderMap := ∅
  contentLength : UInt16 := 0
  buffer : Bytes := []

end CppHttpd
