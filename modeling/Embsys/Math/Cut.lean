/-
# Two cuts of one stream

A stream is often cut twice: by its producer into messages, and by its consumer
into whatever pieces the transport hands over. Each cut is a list of blocks, and
each block occupies a span, a start and a length, of the common stream.

The central fact is that the blocks occurring in both cuts are the same list
read off either cut: spans of nonempty blocks are strictly increasing, so the
common spans appear in the same order and without repetition on both sides.

A consumer that keeps only a front part of each block, up to the first mark, keeps all
but the marks exactly when no block holds anything behind a mark.
-/

import Mathlib.Data.List.Basic
import Mathlib.Data.List.Nodup
import Mathlib.Data.List.Flatten
import Mathlib.Order.Basic

namespace Embsys.Math

variable {α β : Type*}

/-- The spans of consecutive blocks, the first one starting at `pos`. -/
def spansFrom : ℕ → List (List α) → List (ℕ × ℕ)
  | _, [] => []
  | pos, block :: blocks =>
      (pos, block.length) :: spansFrom (pos + block.length) blocks

/-- The spans of the blocks of a cut, counted from the head of the stream. -/
def spans (blocks : List (List α)) : List (ℕ × ℕ) :=
  spansFrom 0 blocks

/-- The part of a stream that a span covers. -/
def slice (stream : List α) (span : ℕ × ℕ) : List α :=
  (stream.drop span.1).take span.2

@[simp]
theorem spansFrom_length (pos : ℕ) (blocks : List (List α)) :
    (spansFrom pos blocks).length = blocks.length := by
  induction blocks generalizing pos with
  | nil => rfl
  | cons block blocks ih => simp [spansFrom, ih]

@[simp]
theorem spans_length (blocks : List (List α)) : (spans blocks).length = blocks.length :=
  spansFrom_length 0 blocks

theorem slice_append_append (before block after : List α) :
    slice (before ++ block ++ after) (before.length, block.length) = block := by
  simp [slice]

/-- Spans locate their blocks: a span of the cut is exactly the place of one of
its blocks. -/
theorem mem_spansFrom {pos : ℕ} {blocks : List (List α)} {span : ℕ × ℕ} :
    span ∈ spansFrom pos blocks ↔
      ∃ before block after, blocks = before ++ block :: after ∧
        span = (pos + before.flatten.length, block.length) := by
  induction blocks generalizing pos with
  | nil => simp [spansFrom]
  | cons head blocks ih =>
      rw [spansFrom, List.mem_cons, ih]
      constructor
      · rintro (rfl | ⟨before, block, after, rfl, rfl⟩)
        · exact ⟨[], head, blocks, rfl, by simp⟩
        · exact ⟨head :: before, block, after, rfl, by simp [Nat.add_assoc]⟩
      · rintro ⟨before, block, after, hblocks, rfl⟩
        cases before with
        | nil =>
            obtain ⟨rfl, rfl⟩ := List.cons.inj hblocks
            exact Or.inl (by simp)
        | cons first before =>
            obtain ⟨rfl, rfl⟩ := List.cons.inj hblocks
            exact Or.inr ⟨before, block, after, rfl, by simp [Nat.add_assoc]⟩

theorem mem_spans {blocks : List (List α)} {span : ℕ × ℕ} :
    span ∈ spans blocks ↔
      ∃ before block after, blocks = before ++ block :: after ∧
        span = (before.flatten.length, block.length) := by
  simp [spans, mem_spansFrom]

/-- Slicing a stream along a cut of one of its prefixes gives the blocks back. -/
theorem map_slice_spans {blocks : List (List α)} {stream : List α}
    (hhead : blocks.flatten <+: stream) :
    (spans blocks).map (slice stream) = blocks := by
  obtain ⟨rest, rfl⟩ := hhead
  suffices h : ∀ before : List α,
      (spansFrom before.length blocks).map (slice (before ++ blocks.flatten ++ rest)) =
        blocks by
    simpa [spans] using h []
  induction blocks with
  | nil => simp [spansFrom]
  | cons block blocks ih =>
      intro before
      have htail := ih (before ++ block)
      have hhead := slice_append_append before block (blocks.flatten ++ rest)
      simp only [List.append_assoc, List.length_append] at htail hhead
      simp [spansFrom, htail, hhead]

/-- The stream content at the place of a block is the block. -/
theorem slice_block {before after : List (List α)} {block stream : List α}
    (hhead : (before ++ block :: after).flatten <+: stream) :
    slice stream (before.flatten.length, block.length) = block := by
  obtain ⟨rest, rfl⟩ := hhead
  have h := slice_append_append before.flatten block (after.flatten ++ rest)
  simpa using h

theorem le_of_mem_spansFrom {pos : ℕ} {blocks : List (List α)} {span : ℕ × ℕ}
    (h : span ∈ spansFrom pos blocks) : pos ≤ span.1 := by
  obtain ⟨before, block, after, -, rfl⟩ := mem_spansFrom.mp h
  exact Nat.le_add_right _ _

/-- The spans of a cut are disjoint: two of them that overlap are the same. -/
theorem eq_of_overlap_spansFrom {pos : ℕ} {blocks : List (List α)} {first second : ℕ × ℕ}
    (hfirst : first ∈ spansFrom pos blocks) (hsecond : second ∈ spansFrom pos blocks)
    (hbefore : first.1 < second.1 + second.2) (hafter : second.1 < first.1 + first.2) :
    first = second := by
  induction blocks generalizing pos with
  | nil => simp [spansFrom] at hfirst
  | cons block blocks ih =>
      rw [spansFrom, List.mem_cons] at hfirst hsecond
      rcases hfirst with rfl | hfirst <;> rcases hsecond with rfl | hsecond
      · rfl
      · have := le_of_mem_spansFrom hsecond
        simp only at hafter
        omega
      · have := le_of_mem_spansFrom hfirst
        simp only at hbefore
        omega
      · exact ih hfirst hsecond

theorem eq_of_overlap {blocks : List (List α)} {first second : ℕ × ℕ}
    (hfirst : first ∈ spans blocks) (hsecond : second ∈ spans blocks)
    (hbefore : first.1 < second.1 + second.2) (hafter : second.1 < first.1 + first.2) :
    first = second :=
  eq_of_overlap_spansFrom hfirst hsecond hbefore hafter

/-- Starts strictly increase along a cut without empty blocks. -/
theorem pairwise_spansFrom {pos : ℕ} {blocks : List (List α)}
    (hne : ∀ block ∈ blocks, block ≠ []) :
    (spansFrom pos blocks).Pairwise (fun first second => first.1 < second.1) := by
  induction blocks generalizing pos with
  | nil => exact List.Pairwise.nil
  | cons block blocks ih =>
      refine List.Pairwise.cons ?_ (ih fun other hother => hne other (by simp [hother]))
      intro span hspan
      obtain ⟨before, other, after, -, rfl⟩ := mem_spansFrom.mp hspan
      have hpos : 0 < block.length := List.length_pos_of_ne_nil (hne block (by simp))
      simp only
      omega

theorem pairwise_spans {blocks : List (List α)} (hne : ∀ block ∈ blocks, block ≠ []) :
    (spans blocks).Pairwise (fun first second => first.1 < second.1) :=
  pairwise_spansFrom hne

/-- Two strictly sorted lists have the same common part, whichever one it is
read from. -/
theorem filter_mem_comm [BEq β] [LawfulBEq β] {r : β → β → Prop}
    (hasymm : ∀ a b, r a b → ¬ r b a) {first second : List β}
    (hfirst : first.Pairwise r) (hsecond : second.Pairwise r) :
    first.filter (· ∈ second) = second.filter (· ∈ first) := by
  have hnodup : ∀ {l : List β}, l.Pairwise r → l.Nodup := by
    intro l h
    apply h.imp
    rintro a b hab rfl
    exact hasymm a a hab hab
  have hperm : (first.filter (· ∈ second)).Perm (second.filter (· ∈ first)) := by
    rw [List.perm_ext_iff_of_nodup ((hnodup hfirst).filter _) ((hnodup hsecond).filter _)]
    intro a
    simp [and_comm]
  exact hperm.eq_of_pairwise (fun a b _ _ hab hba => absurd hba (hasymm a b hab))
    (hfirst.filter _) (hsecond.filter _)

/-- **The blocks common to two cuts.** Reading them off one cut or off the other
gives the same list of spans, in the same order. -/
theorem filter_spans_comm {first second : List (List α)}
    (hfirst : ∀ block ∈ first, block ≠ []) (hsecond : ∀ block ∈ second, block ≠ []) :
    (spans first).filter (· ∈ spans second) = (spans second).filter (· ∈ spans first) :=
  filter_mem_comm (fun _ _ h h' => absurd h' (Nat.lt_asymm h))
    (pairwise_spans hfirst) (pairwise_spans hsecond)

/-- Every element of the stream comes from one block, at an offset inside it. -/
theorem exists_block_of_getElem?_flatten {blocks : List (List α)} {k : ℕ} {a : α}
    (h : blocks.flatten[k]? = some a) :
    ∃ before block after offset, blocks = before ++ block :: after ∧
      k = before.flatten.length + offset ∧ block[offset]? = some a := by
  induction blocks generalizing k with
  | nil => simp at h
  | cons head blocks ih =>
      rw [List.flatten_cons] at h
      by_cases hk : k < head.length
      · rw [List.getElem?_append_left hk] at h
        exact ⟨[], head, blocks, k, rfl, by simp, h⟩
      · rw [List.getElem?_append_right (Nat.le_of_not_lt hk)] at h
        obtain ⟨before, block, after, offset, rfl, hoffset, hblock⟩ := ih h
        refine ⟨head :: before, block, after, offset, rfl, ?_, hblock⟩
        simp only [List.flatten_cons, List.length_append]
        omega

/-- Elements a partial function rejects can be filtered out beforehand. -/
theorem filterMap_filter_of_isSome {γ : Type*} {f : β → Option γ} {p : β → Bool}
    {l : List β} (h : ∀ b ∈ l, (f b).isSome → p b) :
    (l.filter p).filterMap f = l.filterMap f := by
  induction l with
  | nil => rfl
  | cons b l ih =>
      have htail := ih fun c hc => h c (by simp [hc])
      by_cases hp : p b
      · simp [hp, List.filterMap_cons, htail]
      · have hnone : f b = none := by
          cases hf : f b with
          | none => rfl
          | some c => exact absurd (h b (by simp) (by simp [hf])) hp
        simp [hp, hnone, htail]

/-! ## What is kept of each block -/

theorem length_flatten_map_le {f g : β → List α} {blocks : List β}
    (hkept : ∀ block ∈ blocks, f block <+: g block) :
    (blocks.map f).flatten.length ≤ (blocks.map g).flatten.length := by
  induction blocks with
  | nil => exact Nat.le_refl _
  | cons block blocks ih =>
      have hhead := (hkept block (by simp)).length_le
      have htail := ih fun other hother => hkept other (by simp [hother])
      simp only [List.map_cons, List.flatten_cons, List.length_append]
      exact Nat.add_le_add hhead htail

/-- Where a front part is kept of each block, nothing is lost over all blocks only if nothing
is lost of any. -/
theorem flatten_map_eq_iff {f g : β → List α} {blocks : List β}
    (hkept : ∀ block ∈ blocks, f block <+: g block) :
    (blocks.map f).flatten = (blocks.map g).flatten ↔ ∀ block ∈ blocks, f block = g block := by
  constructor
  · intro hwhole
    induction blocks with
    | nil => simp
    | cons block blocks ih =>
        have htail : ∀ other ∈ blocks, f other <+: g other :=
          fun other hother => hkept other (by simp [hother])
        obtain ⟨lost, hlost⟩ := hkept block (by simp)
        simp only [List.map_cons, List.flatten_cons, ← hlost, List.append_assoc,
          List.append_cancel_left_eq] at hwhole
        -- What the first block loses, the others would have to make up for.
        have hshort := length_flatten_map_le htail
        have hlength := congrArg List.length hwhole
        rw [List.length_append] at hlength
        have hnone : lost = [] := List.eq_nil_of_length_eq_zero (by omega)
        rw [hnone, List.append_nil] at hlost
        rw [hnone, List.nil_append] at hwhole
        rw [List.forall_mem_cons]
        exact ⟨hlost, ih htail hwhole⟩
  · intro hkeep
    rw [List.map_congr_left hkeep]

theorem takeWhile_prefix_filter (p : α → Bool) (block : List α) :
    block.takeWhile p <+: block.filter p := by
  induction block with
  | nil => exact List.prefix_rfl
  | cons a block ih =>
      by_cases ha : p a
      · rw [List.takeWhile_cons_of_pos ha, List.filter_cons_of_pos ha]
        exact (List.prefix_cons_inj a).mpr ih
      · rw [List.takeWhile_cons_of_neg ha]
        exact List.nil_prefix

/-- Stopping at the first mark keeps what dropping the marks keeps exactly when nothing
but marks comes after a mark. -/
theorem takeWhile_eq_filter_iff {p : α → Bool} {block : List α} :
    block.takeWhile p = block.filter p ↔
      ∀ (i j : ℕ) (a b : α), i < j → block[i]? = some a → block[j]? = some b → p b → p a := by
  induction block with
  | nil => simp
  | cons first block ih =>
      by_cases hfirst : p first
      · rw [List.takeWhile_cons_of_pos hfirst, List.filter_cons_of_pos hfirst,
          List.cons_inj_right, ih]
        constructor
        · intro hrest i j a b hij ha hb hpb
          cases i with
          | zero => simpa [← Option.some.inj ha] using hfirst
          | succ i =>
              cases j with
              | zero => exact absurd hij (Nat.not_lt_zero _)
              | succ j => exact hrest i j a b (Nat.lt_of_succ_lt_succ hij) ha hb hpb
        · intro hall i j a b hij ha hb hpb
          exact hall (i + 1) (j + 1) a b (Nat.succ_lt_succ hij) ha hb hpb
      · rw [List.takeWhile_cons_of_neg hfirst, List.filter_cons_of_neg hfirst, eq_comm,
          List.filter_eq_nil_iff]
        constructor
        · intro hmarks i j a b hij ha hb hpb
          cases j with
          | zero => exact absurd hij (Nat.not_lt_zero _)
          | succ j => exact absurd hpb (hmarks b (List.mem_of_getElem? hb))
        · intro hall b hb hpb
          obtain ⟨j, hj⟩ := List.getElem?_of_mem hb
          exact hfirst (hall 0 (j + 1) first b (Nat.succ_pos j) rfl hj hpb)

end Embsys.Math
