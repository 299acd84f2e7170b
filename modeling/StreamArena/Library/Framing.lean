import StreamArena.Library.AsciiText

/-! A stream of blocks, each closed by the first separator after it: it can be cut into blocks in one way only. -/
namespace Framing
open AsciiText

/-- The separator behind the block is the first in both. -/
def Complete (sep block : Text) : Prop := splitOnce sep (block ++ sep) = some (block, [])

instance (sep block : Text) : Decidable (Complete sep block) := inferInstanceAs (Decidable (_ = _))

def stream (sep : Text) (blocks : List Text) : Text := blocks.flatMap (· ++ sep)

variable {sep : Text}

theorem stream_cons (block : Text) (blocks : List Text) : stream sep (block :: blocks) = block ++ sep ++ stream sep blocks :=
  List.flatMap_cons

theorem stream_concat (blocks : List Text) (block : Text) :
    stream sep (blocks ++ [block]) = stream sep blocks ++ (block ++ sep) := by
  rw [stream, List.flatMap_append, List.flatMap_singleton]
  rfl

theorem Complete.splitOnce {block : Text} (h : Complete sep block) (more : Text) :
    splitOnce sep (block ++ sep ++ more) = some (block, more) :=
  splitOnce_append_of_some h more

/-- What begins a stream and is cut into blocks is cut at the blocks of the stream. -/
theorem exists_blocks_append (hsep : sep ≠ []) {blocks stream' : List Text} {rest : Text}
    (hblocks : ∀ block ∈ blocks, Complete sep block) (hstream : ∀ block ∈ stream', Complete sep block)
    (h : stream sep blocks ++ rest <+: stream sep stream') :
    ∃ later, stream' = blocks ++ later ∧ rest <+: stream sep later := by
  induction blocks generalizing stream' with
  | nil => exact ⟨stream', rfl, h⟩
  | cons block blocks ih =>
    obtain ⟨more, hmore⟩ := h
    rw [stream_cons, List.append_assoc, List.append_assoc] at hmore
    cases stream' with
    | nil =>
      have hnil : sep = [] := by
        simp only [stream, List.flatMap_nil, List.append_eq_nil_iff] at hmore
        exact hmore.1.2
      exact absurd hnil hsep
    | cons first others =>
      have hsplit := (hblocks block List.mem_cons_self).splitOnce (stream sep blocks ++ (rest ++ more))
      rw [hmore, stream_cons, (hstream first List.mem_cons_self).splitOnce] at hsplit
      obtain ⟨rfl, htail⟩ := Prod.mk.inj (Option.some.inj hsplit)
      obtain ⟨later, rfl, hrest⟩ := ih (fun b hb => hblocks b (List.mem_cons_of_mem _ hb))
        (fun b hb => hstream b (List.mem_cons_of_mem _ hb)) ⟨more, by rw [List.append_assoc, htail]⟩
      exact ⟨later, rfl, hrest⟩

end Framing
