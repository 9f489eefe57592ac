import Mathlib.Data.List.Induction

/-!
# `TrustPortal.Lib.HashChain`: records linked by hashes

A hash chain is a list of records. Each record carries its own hash and the hash of the
record before it, and the first record carries a start value. This file has no hash
function: the proofs use only that the hash of a record fixes the previous hash in it
(`CommitsPrev`), which a collision free hash of a text with the previous hash in it gives.

* `Linked.map_hash_eq`: two chains from one start value that end in the same hash have the
  same hashes throughout.
* `Linked.nodup_hash`: no hash of a chain repeats.

Both need that the start value is the hash of no record.
-/

set_option autoImplicit false

namespace TrustPortal.Lib.HashChain

section
variable {α H : Type} (prev hash : α → H)

/-- Each record carries the hash of the record before it, the first one `start`. -/
def Linked (start : H) : List α → Prop
  | [] => True
  | a :: rest => prev a = start ∧ Linked (hash a) rest

/-- The hash a next record would carry: that of the last record, or `start`. -/
def head (start : H) (chain : List α) : H := chain.foldl (fun _ a => hash a) start

/-- The hash of a record fixes the previous hash it carries, between two lists. -/
def CommitsPrev (as bs : List α) : Prop :=
  ∀ a ∈ as, ∀ b ∈ bs, hash a = hash b → prev a = prev b

end

section
variable {α H : Type} {prev hash : α → H} {start : H}

@[simp] theorem head_nil : head hash start [] = start := rfl

@[simp] theorem head_cons (a : α) (rest : List α) :
    head hash start (a :: rest) = head hash (hash a) rest := rfl

@[simp] theorem head_concat (chain : List α) (a : α) :
    head hash start (chain ++ [a]) = hash a := by
  simp [head]

/-- The records after a prefix are linked from the prefix's head. -/
theorem linked_append {as bs : List α} :
    Linked prev hash start (as ++ bs) ↔
      Linked prev hash start as ∧ Linked prev hash (head hash start as) bs := by
  induction as generalizing start with
  | nil => simp [Linked]
  | cons a rest ih => simp [Linked, ih, and_assoc]

/-- A record at the end of a chain carries the hash of the chain before it. -/
theorem linked_concat {chain : List α} {a : α} :
    Linked prev hash start (chain ++ [a]) ↔
      Linked prev hash start chain ∧ prev a = head hash start chain := by
  simp [linked_append, Linked]

/-- A property of the start value and of every hash holds of every previous hash. -/
theorem Linked.forall_prev {P : H → Prop} {chain : List α} (h : Linked prev hash start chain)
    (hstart : P start) (hhash : ∀ a ∈ chain, P (hash a)) : ∀ a ∈ chain, P (prev a) := by
  induction chain generalizing start with
  | nil => simp
  | cons b rest ih =>
    intro a ha
    rcases List.mem_cons.mp ha with rfl | ha
    · rw [h.1]
      exact hstart
    · exact ih h.2 (hhash b List.mem_cons_self)
        (fun c hc => hhash c (List.mem_cons_of_mem _ hc)) a ha

/-- Two chains from one start value that end in the same hash carry the same hashes. The
induction goes backwards from the common last hash: equal hashes fix equal previous
hashes, and those are the heads of the two chains without their last records. -/
theorem Linked.map_hash_eq {as bs : List α} (ha : Linked prev hash start as)
    (hb : Linked prev hash start bs) (hcommit : CommitsPrev prev hash as bs)
    (hsa : start ∉ as.map hash) (hsb : start ∉ bs.map hash)
    (hhead : head hash start as = head hash start bs) :
    as.map hash = bs.map hash := by
  induction as using List.reverseRecOn generalizing bs with
  | nil =>
    rcases List.eq_nil_or_concat bs with rfl | ⟨bs, b, rfl⟩
    · rfl
    · simp only [List.concat_eq_append, head_nil, head_concat] at hhead hsb
      exact absurd hhead fun h => hsb (by simp [h])
  | append_singleton as a ih =>
    rcases List.eq_nil_or_concat bs with rfl | ⟨bs, b, rfl⟩
    · simp only [head_nil, head_concat] at hhead
      exact absurd hhead fun h => hsa (by simp [h])
    · simp only [List.concat_eq_append] at *
      obtain ⟨ha, hpa⟩ := linked_concat.mp ha
      obtain ⟨hb, hpb⟩ := linked_concat.mp hb
      have hab : hash a = hash b := by simpa using hhead
      have hprev : prev a = prev b := hcommit a (by simp) b (by simp) hab
      have hcommit' : CommitsPrev prev hash as bs := fun x hx y hy =>
        hcommit x (by simp [hx]) y (by simp [hy])
      have hrest : as.map hash = bs.map hash := ih ha hb hcommit'
        (fun h => hsa (by rw [List.map_append]; exact List.mem_append_left _ h))
        (fun h => hsb (by rw [List.map_append]; exact List.mem_append_left _ h))
        (by rw [← hpa, ← hpb, hprev])
      simp [hrest, hab]

/-- No hash of a chain repeats. A repeated hash would end two chains of different
lengths. -/
theorem Linked.nodup_hash {chain : List α} (h : Linked prev hash start chain)
    (hcommit : CommitsPrev prev hash chain chain) (hstart : start ∉ chain.map hash) :
    (chain.map hash).Nodup := by
  induction chain using List.reverseRecOn with
  | nil => simp
  | append_singleton as a ih =>
    have hpre := (linked_concat.mp h).1
    have hcommit' : CommitsPrev prev hash as as := fun x hx y hy =>
      hcommit x (by simp [hx]) y (by simp [hy])
    have hstart' : start ∉ as.map hash := fun hm =>
      hstart (by rw [List.map_append]; exact List.mem_append_left _ hm)
    have hnew : hash a ∉ as.map hash := by
      intro hm
      obtain ⟨b, hb, hba⟩ := List.mem_map.mp hm
      obtain ⟨pre, post, rfl⟩ := List.append_of_mem hb
      -- The chain up to `b` and the whole chain end in the same hash.
      have hshort : Linked prev hash start (pre ++ [b]) :=
        (linked_append.mp (show Linked prev hash start ((pre ++ [b]) ++ post) by
          simpa using hpre)).1
      have hsub : pre ++ [b] ⊆ pre ++ b :: post ++ [a] := by
        intro x hx
        simp only [List.mem_append, List.mem_cons] at hx ⊢
        tauto
      have heq := Linked.map_hash_eq h hshort (fun x hx y hy => hcommit x hx y (hsub hy))
        hstart (fun hm => hstart (List.map_subset hash hsub hm)) (by rw [head_concat,
          head_concat, hba])
      have hlen := congrArg List.length heq
      simp at hlen
    rw [List.map_append, List.nodup_append]
    refine ⟨ih hpre hcommit' hstart', by simp, ?_⟩
    intro x hx y hy hxy
    simp only [List.map_cons, List.map_nil, List.mem_singleton] at hy
    exact hnew (by rw [← hy, ← hxy]; exact hx)

end

end TrustPortal.Lib.HashChain
