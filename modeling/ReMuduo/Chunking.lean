import Mathlib.Tactic.Common
import Mathlib.Data.List.Flatten

/-! # Streams cut into chunks at record boundaries

A writer batches records (log lines, frames) into chunks and hands the chunks on.
`Chunked records chunks` says that nothing is lost, reordered or duplicated on the way
and that no record is cut: the chunks are the concatenations of consecutive groups of
records, and the groups together are all of them. -/
namespace ReMuduo

variable {α : Type}

/-- The chunks are the records, batched in order, each record whole in one chunk. -/
def Chunked (records chunks : List (List α)) : Prop :=
  ∃ groups : List (List (List α)),
    groups.flatten = records ∧ groups.map List.flatten = chunks

namespace Chunked

variable {records records' chunks chunks' : List (List α)} {r c : List α}

/-- A chunk without records. -/
theorem nil_chunk : Chunked [] [([] : List α)] := ⟨[[]], rfl, rfl⟩

/-- A chunk of one record. -/
theorem singleton : Chunked [r] [r] := ⟨[[r]], rfl, by simp⟩

theorem append (h : Chunked records chunks) (h' : Chunked records' chunks') :
    Chunked (records ++ records') (chunks ++ chunks') := by
  obtain ⟨groups, rfl, rfl⟩ := h
  obtain ⟨groups', rfl, rfl⟩ := h'
  exact ⟨groups ++ groups', by simp, by simp⟩

/-- Each record is a chunk of its own. -/
theorem refl (records : List (List α)) : Chunked records records := by
  induction records with
  | nil => exact ⟨[], rfl, rfl⟩
  | cons r rest ih => exact singleton.append ih

/-- Chunks that are batched once more. -/
theorem trans {batches : List (List α)} (h : Chunked records chunks) (h' : Chunked chunks batches) :
    Chunked records batches := by
  obtain ⟨groups, rfl, hgroups⟩ := h
  obtain ⟨outer, houter, rfl⟩ := h'
  rw [← houter] at hgroups
  clear houter
  -- the batches are left one by one, each with the groups of records that make its chunks
  induction outer generalizing groups with
  | nil =>
    rw [List.map_eq_nil_iff.mp hgroups]
    exact ⟨[], rfl, rfl⟩
  | cons batch outer ih =>
    obtain ⟨front, back, rfl, hfront, hback⟩ := List.map_eq_append_iff.mp hgroups
    have hbatch : Chunked front.flatten [batch.flatten] :=
      ⟨[front.flatten], by simp, by rw [← hfront, List.map_singleton, List.flatten_flatten]⟩
    rw [List.flatten_append]
    exact hbatch.append (ih back hback)

/-- One more record in the last chunk. -/
theorem extend_last (h : Chunked records (chunks ++ [c])) :
    Chunked (records ++ [r]) (chunks ++ [c ++ r]) := by
  obtain ⟨groups, rfl, hmap⟩ := h
  obtain ⟨front, last, rfl, rfl, hlast⟩ := List.map_eq_append_iff.mp hmap
  obtain ⟨g, rfl, rfl⟩ := List.map_eq_singleton_iff.mp hlast
  exact ⟨front ++ [g ++ [r]], by simp, by simp⟩

/-- The chunked stream has the bytes of the records. -/
theorem flatten_eq (h : Chunked records chunks) : chunks.flatten = records.flatten := by
  obtain ⟨groups, rfl, rfl⟩ := h
  exact List.flatten_flatten.symm

/-- Records without content can be left out. -/
theorem filter_ne_nil [DecidableEq α] (h : Chunked records chunks) :
    Chunked (records.filter (· ≠ [])) chunks := by
  have hflat : ∀ group : List (List α), (group.filter (· ≠ [])).flatten = group.flatten := by
    intro group
    induction group with
    | nil => rfl
    | cons r rest ih => by_cases hr : r = [] <;> simp_all
  obtain ⟨groups, rfl, rfl⟩ := h
  refine ⟨groups.map (·.filter (· ≠ [])), by rw [List.filter_flatten], ?_⟩
  rw [List.map_map]
  exact List.map_congr_left fun group _ => hflat group

/-- If no record is empty, chunks without content can be left out at the end. -/
theorem of_append_nil (hr : [] ∉ records) (h : Chunked records (chunks ++ chunks'))
    (hnil : chunks'.flatten = []) : Chunked records chunks := by
  obtain ⟨groups, rfl, hmap⟩ := h
  obtain ⟨front, back, rfl, rfl, rfl⟩ := List.map_eq_append_iff.mp hmap
  have hback : back.flatten = [] := by
    refine List.eq_nil_iff_forall_not_mem.mpr fun r hmem => hr ?_
    have hempty : r = [] := by
      rw [← List.flatten_flatten] at hnil
      exact List.flatten_eq_nil_iff.mp hnil r hmem
    rw [← hempty, List.flatten_append]
    exact List.mem_append_right _ hmem
  exact ⟨front, by rw [List.flatten_append, hback, List.append_nil], rfl⟩

end Chunked
end ReMuduo
