import Mathlib.Data.List.Induction
import Mathlib.Data.List.Perm.Basic
import Mathlib.Order.Lattice
import StreamArena.Library.InsertionMap

/-! Lists of the newest: of each key the entry of the highest rank, the highest ranks first, and no more than so many. What
comes out depends on the keys and ranks that went in, not on their order or on how often they came. -/
namespace NewestFirst
open KeyedTable
variable {α κ ρ : Type*} [DecidableEq κ] [LinearOrder ρ]

/-- How an entry is known: its key, and its rank. -/
structure Scale (α κ ρ : Type*) where
  key : α → κ
  rank : α → ρ

variable (scale : Scale α κ ρ)

def Scale.tag (entry : α) : κ × ρ := (scale.key entry, scale.rank entry)

/-- The later of two entries of one rank is kept. -/
def Scale.keep (old new : α) : α := if scale.rank old ≤ scale.rank new then new else old

def Scale.add (table : Table κ α) (entry : α) : Table κ α :=
  table.upsert (scale.key entry) entry fun old => scale.keep old entry

def Scale.newest (entries : List α) : Table κ α := entries.foldl scale.add Table.empty

/-- Highest ranks first; entries of one rank stay as they are. -/
def Scale.sort (entries : List α) : List α := entries.mergeSort fun left right => decide (scale.rank right ≤ scale.rank left)

def Scale.listing (count : Nat) (entries : List α) : List α := (scale.sort (scale.newest entries).values).take count

variable {scale} {entries : List α} {entry : α} {key : κ}

/-- A table has of each key the newest entry. -/
structure Scale.Newest (scale : Scale α κ ρ) (entries : List α) (table : Table κ α) : Prop where
  found : ∀ entry ∈ entries, ∃ kept, table.get (scale.key entry) = some kept ∧ scale.rank entry ≤ scale.rank kept
  kept : ∀ key kept, table.get key = some kept → kept ∈ entries ∧ scale.key kept = key

theorem Scale.Newest.add {table : Table κ α} (h : scale.Newest entries table) (entry : α) :
    scale.Newest (entries ++ [entry]) (scale.add table entry) := by
  have hget (key : κ) : (scale.add table entry).get key =
      if key = scale.key entry then some ((table.get (scale.key entry)).elim entry fun old => scale.keep old entry)
      else table.get key := get_upsert ..
  refine ⟨fun other hother => ?_, fun key kept hkept => ?_⟩
  · rw [hget]
    obtain hother | hother := List.mem_append.mp hother
    · obtain ⟨kept, hkept, hle⟩ := h.found other hother
      by_cases hkey : scale.key other = scale.key entry
      · refine ⟨_, if_pos hkey, ?_⟩
        rw [← hkey, hkept, Option.elim_some, Scale.keep]
        split
        · next hnewer => exact hle.trans hnewer
        · exact hle
      · exact ⟨kept, by rw [if_neg hkey, hkept], hle⟩
    · obtain rfl := List.mem_singleton.mp hother
      refine ⟨_, if_pos rfl, ?_⟩
      cases table.get (scale.key other) with
      | none => exact le_refl _
      | some old =>
        rw [Option.elim_some, Scale.keep]
        split
        · exact le_refl _
        · next hnewer => exact (lt_of_not_ge hnewer).le
  · rw [hget] at hkept
    split at hkept
    · next hkey =>
      have heq := Option.some.inj hkept
      cases hold : table.get (scale.key entry) with
      | none =>
        rw [hold, Option.elim_none] at heq
        subst heq
        exact ⟨List.mem_append_right _ (List.mem_singleton.mpr rfl), hkey.symm⟩
      | some old =>
        rw [hold, Option.elim_some, Scale.keep] at heq
        obtain ⟨hmem, hold⟩ := h.kept _ _ hold
        split at heq
        · subst heq
          exact ⟨List.mem_append_right _ (List.mem_singleton.mpr rfl), hkey.symm⟩
        · subst heq
          exact ⟨List.mem_append_left _ hmem, hold.trans hkey.symm⟩
    · obtain ⟨hmem, hkey⟩ := h.kept _ _ hkept
      exact ⟨List.mem_append_left _ hmem, hkey⟩

theorem newest_newest (scale : Scale α κ ρ) (entries : List α) : scale.Newest entries (scale.newest entries) := by
  induction entries using List.reverseRecOn with
  | nil => exact ⟨fun _ h => absurd h List.not_mem_nil, fun _ _ h => by cases h⟩
  | append_singleton entries entry ih =>
    rw [Scale.newest, List.foldl_append]
    exact ih.add entry

/-- Pairs of key and rank in their order: of each key the highest rank. -/
structure Ranks (pairs listed : List (κ × ρ)) : Prop where
  mem : ∀ pair ∈ listed, pair ∈ pairs
  covers : ∀ pair ∈ pairs, ∃ top ∈ listed, top.1 = pair.1 ∧ pair.2 ≤ top.2
  nodup : (listed.map Prod.fst).Nodup
  sorted : listed.Pairwise fun left right => right.2 ≤ left.2

/-- Different keys have different ranks. -/
def Apart (pairs : List (κ × ρ)) : Prop := ∀ left ∈ pairs, ∀ right ∈ pairs, left.2 = right.2 → left.1 = right.1

variable {pairs fewer listed others : List (κ × ρ)} {pair top : κ × ρ}

omit [DecidableEq κ] in
/-- A key is listed with one rank. -/
theorem Ranks.eq_of_key (h : Ranks pairs listed) (hpair : pair ∈ listed) (htop : top ∈ listed) (hkey : top.1 = pair.1) :
    top = pair :=
  List.inj_on_of_nodup_map h.nodup htop hpair hkey

omit [DecidableEq κ] in
theorem Ranks.le_of_key (h : Ranks pairs listed) (htop : top ∈ listed) (hpair : pair ∈ pairs) (hkey : top.1 = pair.1) :
    pair.2 ≤ top.2 := by
  obtain ⟨other, hother, hkey', hle⟩ := h.covers pair hpair
  rwa [h.eq_of_key hother htop (hkey.trans hkey'.symm)]

omit [DecidableEq κ] in
theorem Ranks.nodup_listed (h : Ranks pairs listed) : listed.Nodup := h.nodup.of_map

/-- The first ones of a listing come out first where only they have to be there. -/
theorem Ranks.take_eq (h : Ranks pairs listed) (hothers : Ranks fewer others) (hapart : Apart pairs) (hsub : fewer ⊆ pairs)
    {count : Nat} (htop : listed.take count ⊆ fewer) : others.take count = listed.take count := by
  have hmem : listed.take count ⊆ others := by
    intro top htaken
    have hlisted : top ∈ listed := List.mem_of_mem_take htaken
    obtain ⟨other, hother, hkey, hle⟩ := hothers.covers top (htop htaken)
    have hge := h.le_of_key hlisted (hsub (hothers.mem other hother)) hkey.symm
    rwa [show top = other from Prod.ext hkey.symm (le_antisymm hle hge)]
  -- What else is listed has its key below all of these.
  have hbelow : ∀ pair ∈ others, pair ∉ listed.take count → ∃ top ∈ listed.drop count, pair.2 ≤ top.2 := by
    intro pair hpair hnot
    obtain ⟨top, hlisted, hkey, hle⟩ := h.covers pair (hsub (hothers.mem pair hpair))
    rw [← List.take_append_drop count listed] at hlisted
    obtain htaken | hdropped := List.mem_append.mp hlisted
    · rw [hothers.eq_of_key hpair (hmem htaken) hkey] at htaken
      exact absurd htaken hnot
    · exact ⟨top, hdropped, hle⟩
  have hcross := List.pairwise_append.mp ((List.take_append_drop count listed).symm ▸ h.sorted)
  have hrest : ∀ pair, pair ∈ others.filter (fun pair => decide (pair ∉ listed.take count)) ↔
      pair ∈ others ∧ pair ∉ listed.take count := by
    intro pair
    rw [List.mem_filter, decide_eq_true_iff]
  have hperm : others.Perm (listed.take count ++ others.filter fun pair => decide (pair ∉ listed.take count)) := by
    refine (List.perm_ext_iff_of_nodup hothers.nodup_listed ?_).mpr fun pair => ?_
    · refine List.nodup_append.mpr ⟨h.nodup_listed.sublist (List.take_sublist _ _), hothers.nodup_listed.filter _, ?_⟩
      rintro pair htaken other hother rfl
      exact ((hrest pair).mp hother).2 htaken
    · rw [List.mem_append, hrest]
      by_cases htaken : pair ∈ listed.take count
      · simp [htaken, hmem htaken]
      · simp [htaken]
  have hsorted : (listed.take count ++ others.filter fun pair => decide (pair ∉ listed.take count)).Pairwise
      fun left right => right.2 ≤ left.2 := by
    refine List.pairwise_append.mpr ⟨h.sorted.sublist (List.take_sublist _ _), hothers.sorted.filter _, ?_⟩
    intro top htaken pair hpair
    obtain ⟨hother, hnot⟩ := (hrest pair).mp hpair
    obtain ⟨below, hdropped, hle⟩ := hbelow pair hother hnot
    exact hle.trans (hcross.2.2 top htaken below hdropped)
  have hunique : ∀ left right : κ × ρ, left ∈ others →
      right ∈ listed.take count ++ others.filter (fun pair => decide (pair ∉ listed.take count)) →
        right.2 ≤ left.2 → left.2 ≤ right.2 → left = right := by
    intro left right hleft hright hle hge
    have hother := hperm.mem_iff.mpr hright
    refine hothers.eq_of_key hother hleft ?_
    exact hapart left (hsub (hothers.mem left hleft)) right (hsub (hothers.mem right hother)) (le_antisymm hge hle)
  have heq := List.Perm.eq_of_pairwise hunique hothers.sorted hsorted hperm
  obtain hcount | hcount := Nat.le_total count listed.length
  · rw [heq, List.take_append_of_le_length (by rw [List.length_take_of_le hcount]), List.take_take, Nat.min_self]
  · have hnone : others.filter (fun pair => decide (pair ∉ listed.take count)) = [] := by
      refine List.eq_nil_iff_forall_not_mem.mpr fun pair hpair => ?_
      obtain ⟨hother, hnot⟩ := (hrest pair).mp hpair
      obtain ⟨below, hdropped, -⟩ := hbelow pair hother hnot
      rw [List.drop_eq_nil_of_le hcount] at hdropped
      cases hdropped
    rw [heq, hnone, List.append_nil, List.take_take, Nat.min_self]

/-- The tags of what is sorted. -/
theorem ranks_sort (scale : Scale α κ ρ) (entries : List α) :
    Ranks (entries.map scale.tag) ((scale.sort (scale.newest entries).values).map scale.tag) := by
  have hnewest := newest_newest scale entries
  have hmem {entry : α} : entry ∈ scale.sort (scale.newest entries).values ↔
      ∃ key, (scale.newest entries).get key = some entry := by
    rw [Scale.sort, List.mem_mergeSort, mem_values]
  refine ⟨fun pair hpair => ?_, fun pair hpair => ?_, ?_, ?_⟩
  · obtain ⟨entry, hentry, rfl⟩ := List.mem_map.mp hpair
    obtain ⟨key, hget⟩ := hmem.mp hentry
    exact List.mem_map_of_mem (hnewest.kept key entry hget).1
  · obtain ⟨entry, hentry, rfl⟩ := List.mem_map.mp hpair
    obtain ⟨kept, hget, hle⟩ := hnewest.found entry hentry
    exact ⟨scale.tag kept, List.mem_map_of_mem (hmem.mpr ⟨_, hget⟩), (hnewest.kept _ kept hget).2, hle⟩
  · have hkeys : ((scale.newest entries).values.map scale.key) = (scale.newest entries).rows.map Prod.fst := by
      rw [Table.values, List.map_map]
      refine List.map_congr_left fun row hrow => ?_
      exact (hnewest.kept _ _ ((scale.newest entries).mem_rows_iff.mp hrow)).2
    rw [List.map_map]
    refine ((List.mergeSort_perm (scale.newest entries).values _).map scale.key).nodup_iff.mpr ?_
    rw [hkeys]
    exact (scale.newest entries).nodup
  · refine List.pairwise_map.mpr (List.Pairwise.imp (fun h => of_decide_eq_true h) (List.pairwise_mergeSort ?_ ?_ _))
    · intro first second third hfirst hsecond
      exact decide_eq_true ((of_decide_eq_true hsecond).trans (of_decide_eq_true hfirst))
    · intro first second
      rw [Bool.or_eq_true, decide_eq_true_iff, decide_eq_true_iff]
      exact le_total _ _

theorem length_listing_le (count : Nat) (entries : List α) : (scale.listing count entries).length ≤ count :=
  List.length_take_le _ _

theorem map_listing (count : Nat) (entries : List α) : (scale.listing count entries).map scale.tag =
    ((scale.sort (scale.newest entries).values).map scale.tag).take count := by
  rw [Scale.listing, List.map_take]

/-- What is listed came in, one entry a key and the highest first, and a rank that came in is listed or stands behind a
full list, or has a higher one of its key listed. -/
theorem mem_of_mem_listing {count : Nat} (h : entry ∈ scale.listing count entries) : entry ∈ entries := by
  have hsorted : entry ∈ (scale.newest entries).values := List.mem_mergeSort.mp (List.mem_of_mem_take h)
  obtain ⟨key, hget⟩ := mem_values.mp hsorted
  exact ((newest_newest scale entries).kept key entry hget).1

theorem listed_or_full (scale : Scale α κ ρ) (count : Nat) (h : entry ∈ entries) :
    (∃ top ∈ scale.listing count entries, scale.key top = scale.key entry ∧ scale.rank entry ≤ scale.rank top) ∨
      (scale.listing count entries).length = count ∧
        ∀ top ∈ scale.listing count entries, scale.rank entry ≤ scale.rank top := by
  have hranks := ranks_sort scale entries
  obtain ⟨kept, hget, hle⟩ := (newest_newest scale entries).found entry h
  have hkey := ((newest_newest scale entries).kept _ kept hget).2
  have hsorted : kept ∈ scale.sort (scale.newest entries).values := List.mem_mergeSort.mpr (mem_values.mpr ⟨_, hget⟩)
  rw [← List.take_append_drop count (scale.sort (scale.newest entries).values)] at hsorted
  obtain htaken | hdropped := List.mem_append.mp hsorted
  · exact .inl ⟨kept, htaken, hkey, hle⟩
  · refine .inr ⟨?_, fun top htop => hle.trans ?_⟩
    · refine List.length_take_of_le (Nat.le_of_lt (Nat.lt_of_not_le fun hfull => ?_))
      rw [List.drop_eq_nil_of_le hfull] at hdropped
      cases hdropped
    · have hpairs := hranks.sorted
      rw [List.pairwise_map, ← List.take_append_drop count (scale.sort _)] at hpairs
      exact (List.pairwise_append.mp hpairs).2.2 top htop kept hdropped

/-- The same listing comes of all entries that have its own among them and no others than were there. -/
theorem listing_eq {more : List α} {count : Nat} (hapart : Apart (entries.map scale.tag))
    (hsub : more.map scale.tag ⊆ entries.map scale.tag)
    (htop : (scale.listing count entries).map scale.tag ⊆ more.map scale.tag) :
    (scale.listing count more).map scale.tag = (scale.listing count entries).map scale.tag := by
  rw [map_listing] at htop ⊢
  rw [map_listing]
  exact (ranks_sort scale entries).take_eq (ranks_sort scale more) hapart hsub htop

end NewestFirst
