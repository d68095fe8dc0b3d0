import Prodinamik.Memory.GlobalMemory

namespace Prodinamik.Memory

open Lib Lib.Argmax

variable {V T : Type} [LinearOrder T]

namespace GlobalMemory

/-- A new replica after the given calls of merge. -/
def replica (nodeId : String) (batches : List (List (CRDTEntry V T))) : GlobalMemory V T :=
  batches.foldl merge ⟨nodeId, .empty⟩

theorem replica_eq (nodeId : String) (batches : List (List (CRDTEntry V T))) :
    replica nodeId batches = merge ⟨nodeId, .empty⟩ batches.flatten :=
  (List.foldl_flatten ..).symm

/-- An entry that no other entry of its key is newer than. -/
def Newest (entries : List (CRDTEntry V T)) (e : CRDTEntry V T) : Prop :=
  e ∈ entries ∧ ∀ c ∈ entries, c.place = e.place → c.timestamp ≤ e.timestamp

theorem newest_iff {entries : List (CRDTEntry V T)} {e : CRDTEntry V T} :
    Newest entries e ↔
      Greatest CRDTEntry.timestamp (entries.filter fun c => c.place = e.place) e := by
  rw [Newest, Greatest]
  simp

/-- Replicas that merge the same entries agree whatever the order exactly when
no key has two newest entries. -/
theorem converged_iff (entries : List (CRDTEntry V T)) :
    (∀ (a b : String) (batches batches' : List (List (CRDTEntry V T))),
      (∀ e, e ∈ batches.flatten ↔ e ∈ entries) → (∀ e, e ∈ batches'.flatten ↔ e ∈ entries) →
      ∀ p, (replica a batches).entry p = (replica b batches').entry p) ↔
    ∀ e e', Newest entries e → Newest entries e' → e.place = e'.place → e = e' := by
  constructor
  · intro h e e' he he' hplace
    have hlast := h "" "" [e :: entries] [e' :: entries]
      (fun c => by simp; rintro rfl; exact he.1) (fun c => by simp; rintro rfl; exact he'.1) e.place
    rw [replica_eq, replica_eq, entry_merge_empty, entry_merge_empty] at hlast
    have hfirst : ∀ c, Newest entries c → c.place = e.place →
        ([c :: entries].flatten.filter fun d => d.place = e.place).argmax CRDTEntry.timestamp =
          some c := by
      intro c hc hcplace
      rw [List.flatten_singleton, List.filter_cons_of_pos (by simpa using hcplace), ← hcplace]
      exact argmax_cons_of_forall_le (newest_iff.mp hc).2
    rw [hfirst e he rfl, hfirst e' he' hplace.symm] at hlast
    exact Option.some.inj hlast
  · intro h a b batches batches' hbatches hbatches' p
    rw [replica_eq, replica_eq, entry_merge_empty, entry_merge_empty]
    refine argmax_congr (fun c => ?_) fun e e' he he' => ?_
    · rw [List.mem_filter, List.mem_filter, hbatches, hbatches']
    · have hmem : ∀ c, Greatest CRDTEntry.timestamp
          (batches.flatten.filter fun d => d.place = p) c → c.place = p ∧ Newest entries c := by
        intro c hc
        have hplace : c.place = p := by simpa using (List.mem_filter.mp hc.1).2
        subst hplace
        refine ⟨rfl, newest_iff.mpr (hc.of_mem_iff fun d => ?_)⟩
        rw [List.mem_filter, List.mem_filter, hbatches]
      exact h e e' (hmem e he).2 (hmem e' he').2 ((hmem e he).1.trans (hmem e' he').1.symm)

/-- Two nodes have written the key at the same reading of their clocks. -/
def tie : List (CRDTEntry String Nat) :=
  [{ key := "config", value := "one", timestamp := 5, nodeId := "node-1" },
    { key := "config", value := "two", timestamp := 5, nodeId := "node-2" }]

theorem not_converged : ¬ ∀ (entries : List (CRDTEntry String Nat)) (a b : String)
    (batches batches' : List (List (CRDTEntry String Nat))),
    (∀ e, e ∈ batches.flatten ↔ e ∈ entries) → (∀ e, e ∈ batches'.flatten ↔ e ∈ entries) →
    ∀ p, (replica a batches).entry p = (replica b batches').entry p := by
  intro h
  have hstores := h tie "node-1" "node-2" [tie] [tie.reverse] (by simp) (by simp)
    ("default", "config")
  revert hstores
  decide +kernel

end GlobalMemory

end Prodinamik.Memory
