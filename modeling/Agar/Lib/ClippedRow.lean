import Mathlib

namespace Agar.Lib

/-!
# Rows that are clipped

Items are placed in a row, each with the size that it wants, but not behind a
limit.  An item that grows wants all of a slack, another one what it needs, and
one that is not live nothing.  An item is served where it gets what it needs,
and only one that may vanish gets nothing.
-/

/-- What is known of an item before it is placed -/
structure Item where
  need : Int
  grows : Bool
  live : Bool
  vanishes : Bool
  deriving Repr, DecidableEq

namespace Item

/-- The size that an item wants -/
def want (slack : Int) (item : Item) : Int :=
  if item.live then if item.grows then slack else item.need else 0

/-- An item that grows can take up the slack. -/
def Takes (item : Item) : Prop := item.grows = true ∧ item.live = true

instance (item : Item) : Decidable item.Takes := inferInstanceAs (Decidable (_ ∧ _))

/-- An item has a size that it accepts. -/
structure Served (item : Item) (size : Int) : Prop where
  need : item.need ≤ size
  vanishes : size = 0 → item.vanishes = true

/-- An item can be without a size. -/
structure Hollow (item : Item) : Prop where
  need : item.need = 0
  vanishes : item.vanishes = true

end Item

/-- The sizes of items in a row from a start on, none behind the limit -/
def clippedSizes (limit gap slack : Int) : Int → List Item → List Int
  | _, [] => []
  | start, item :: rest =>
    let size := max 0 (min (item.want slack) (limit - start))
    size :: clippedSizes limit gap slack (start + size + gap) rest

/-- What items take up that grow by nothing, with a gap behind each -/
def room (gap : Int) : List Item → Int
  | [] => 0
  | item :: rest => (if item.grows then 0 else item.need) + gap + room gap rest

/-- What sizes take up, with a gap behind each -/
def extent (gap : Int) (sizes : List Int) : Int := sizes.sum + gap * sizes.length

/-- Only items that can be without a size want nothing. -/
def HollowOnly (slack : Int) (items : List Item) : Prop :=
  ∀ item ∈ items, item.want slack = 0 → item.Hollow

/--
Each item that takes up the slack behind another one comes where the row ends
at the limit, and can be without a size.
-/
def TakenOnce (gap stop limit : Int) (taken : Prop) (items : List Item) : Prop :=
  ∀ front item back, items = front ++ item :: back → item.Takes →
      (taken ∨ ∃ other ∈ front, other.Takes) → stop = limit ∧ room gap back = 0 ∧ item.Hollow

section

variable {limit gap slack start stop : Int} {item : Item} {items : List Item}

@[simp] theorem extent_cons (gap size : Int) (sizes : List Int) :
    extent gap (size :: sizes) = size + gap + extent gap sizes := by
  unfold extent
  rw [List.sum_cons, List.length_cons]
  push_cast
  ring

/-! ## Room -/

theorem room_nonneg (needs : ∀ item ∈ items, 0 ≤ item.need) (spaced : 0 ≤ gap) :
    0 ≤ room gap items := by
  induction items with
  | nil => exact Int.le_refl 0
  | cons item rest ih =>
    obtain ⟨first, others⟩ := List.forall_mem_cons.mp needs
    have behind := ih others
    rw [room]
    split <;> omega

variable {rest : List Item}

theorem room_nonneg_of_spaced (needs : ∀ other ∈ item :: rest, 0 ≤ other.need)
    (spaced : (item :: rest).length ≤ 1 ∨ 0 ≤ gap) : 0 ≤ room gap rest := by
  rcases spaced with single | spaced
  · rw [List.length_cons] at single
    have none : rest = [] := List.eq_nil_of_length_eq_zero (by omega)
    rw [none]
    exact Int.le_refl 0
  · exact room_nonneg (List.forall_mem_cons.mp needs).2 spaced

theorem spaced_tail (spaced : (item :: rest).length ≤ 1 ∨ 0 ≤ gap) : rest.length ≤ 1 ∨ 0 ≤ gap := by
  rw [List.length_cons] at spaced
  omega

theorem gap_le_room (some : items ≠ []) (needs : ∀ item ∈ items, 0 ≤ item.need)
    (spaced : items.length ≤ 1 ∨ 0 ≤ gap) : gap ≤ room gap items := by
  obtain ⟨item, rest, rfl⟩ := List.exists_cons_of_ne_nil some
  have need := needs item List.mem_cons_self
  have behind := room_nonneg_of_spaced needs spaced
  rw [room]
  split <;> omega

theorem room_le_needs (needs : ∀ item ∈ items, 0 ≤ item.need) :
    room gap items ≤ extent gap (items.map Item.need) := by
  induction items with
  | nil => simp [room, extent]
  | cons item rest ih =>
    obtain ⟨need, others⟩ := List.forall_mem_cons.mp needs
    have behind := ih others
    rw [room, List.map_cons, extent_cons]
    split <;> omega

theorem room_add_need_le (needs : ∀ item ∈ items, 0 ≤ item.need) (member : item ∈ items)
    (grows : item.grows = true) :
    room gap items + item.need ≤ extent gap (items.map Item.need) := by
  induction items with
  | nil => exact absurd member List.not_mem_nil
  | cons head rest ih =>
    obtain ⟨need, others⟩ := List.forall_mem_cons.mp needs
    rw [room, List.map_cons, extent_cons]
    rcases List.mem_cons.mp member with rfl | member
    · have behind := @room_le_needs gap rest others
      rw [if_pos grows]
      omega
    · have behind := ih others member
      split <;> omega

theorem need_add_gap_le (needs : ∀ item ∈ items, 0 ≤ item.need)
    (spaced : items.length ≤ 1 ∨ 0 ≤ gap) (member : item ∈ items) :
    item.need + gap ≤ extent gap (items.map Item.need) := by
  induction items with
  | nil => exact absurd member List.not_mem_nil
  | cons head rest ih =>
    obtain ⟨need, others⟩ := List.forall_mem_cons.mp needs
    have behind := room_nonneg_of_spaced needs spaced
    have atMost := @room_le_needs gap rest others
    rw [List.map_cons, extent_cons]
    rcases List.mem_cons.mp member with rfl | member
    · omega
    · have following :=
        ih others (spaced_tail spaced) member
      have some := List.length_pos_of_mem member
      rw [List.length_cons] at spaced
      omega

theorem room_le_extent {sizes : List Int} (served : List.Forall₂ Item.Served items sizes)
    (nonneg : ∀ size ∈ sizes, 0 ≤ size) : room gap items ≤ extent gap sizes := by
  induction served with
  | nil => simp [room, extent]
  | cons first others ih =>
    obtain ⟨firstNonneg, othersNonneg⟩ := List.forall_mem_cons.mp nonneg
    have need := first.need
    have behind := ih othersNonneg
    rw [room, extent_cons]
    split <;> omega

@[simp] theorem length_clippedSizes :
    (clippedSizes limit gap slack start items).length = items.length := by
  induction items generalizing start with
  | nil => exact rfl
  | cons item rest ih => rw [clippedSizes, List.length_cons, List.length_cons, ih]

theorem clippedSizes_nonneg : ∀ size ∈ clippedSizes limit gap slack start items, 0 ≤ size := by
  induction items generalizing start with
  | nil => exact fun _ none => absurd none List.not_mem_nil
  | cons item rest ih => exact List.forall_mem_cons.mpr ⟨le_max_left .., ih⟩

/-! ## One item -/

theorem served_want_iff (nonneg : 0 ≤ item.need)
    (enough : item.want slack ≠ 0 → item.need ≤ item.want slack) :
    item.Served (item.want slack) ↔ (item.want slack = 0 → item.Hollow) := by
  constructor
  · intro served nothing
    have need := served.need
    rw [nothing] at need
    exact ⟨by omega, served.vanishes nothing⟩
  · intro hollow
    by_cases nothing : item.want slack = 0
    · have isHollow := hollow nothing
      rw [nothing]
      exact ⟨isHollow.need.le, fun _ => isHollow.vanishes⟩
    · exact ⟨enough nothing, fun zero => absurd zero nothing⟩

theorem served_zero_iff (nonneg : 0 ≤ item.need) : item.Served 0 ↔ item.Hollow := by
  constructor
  · intro served
    have need := served.need
    exact ⟨by omega, served.vanishes rfl⟩
  · intro hollow
    exact ⟨hollow.need.le, fun _ => hollow.vanishes⟩

theorem want_le_need (nonneg : 0 ≤ item.need) (stays : item.grows = false) :
    item.want slack ≤ item.need := by
  unfold Item.want
  rw [stays]
  split
  · exact Int.le_refl _
  · exact nonneg

theorem want_of_stays (stays : item.grows = false) (some : item.want slack ≠ 0) :
    item.want slack = item.need := by
  unfold Item.want at some ⊢
  rw [stays] at some ⊢
  split at some
  case isTrue live =>
    rw [if_pos live]
    rfl
  case isFalse => exact absurd rfl some

theorem want_of_takes (takes : item.Takes) : item.want slack = slack := by
  unfold Item.want
  rw [if_pos takes.2, if_pos takes.1]

theorem want_of_grows (grows : item.grows = true) (notTakes : ¬ item.Takes) :
    item.want slack = 0 := by
  unfold Item.want
  exact if_neg fun live => notTakes ⟨grows, live⟩

/-! ## Items that want no slack -/

theorem extent_of_served (needs : ∀ item ∈ items, 0 ≤ item.need)
    (quiet : ∀ item ∈ items, item.grows = true → item.want slack = 0)
    (served : List.Forall₂ Item.Served items (clippedSizes limit gap slack start items)) :
    extent gap (clippedSizes limit gap slack start items) = room gap items := by
  induction items generalizing start with
  | nil => simp [clippedSizes, room, extent]
  | cons item rest ih =>
    obtain ⟨need, others⟩ := List.forall_mem_cons.mp needs
    obtain ⟨first, quietOthers⟩ := List.forall_mem_cons.mp quiet
    obtain ⟨servedFirst, servedOthers⟩ := List.forall₂_cons.mp served
    have behind := ih others quietOthers servedOthers
    rw [clippedSizes, extent_cons, behind, room]
    cases grows : item.grows with
    | true =>
      rw [first grows, if_pos rfl]
      omega
    | false =>
      have enough := servedFirst.need
      have atMost : item.want slack ≤ item.need := want_le_need need grows
      rw [if_neg Bool.false_ne_true]
      omega

theorem want_of_quiet (nonneg : 0 ≤ item.need) (quiet : item.grows = true → item.want slack = 0) :
    0 ≤ item.want slack ∧ item.want slack ≤ (if item.grows then 0 else item.need) ∧
      (item.want slack ≠ 0 → item.need ≤ item.want slack) := by
  cases grows : item.grows with
  | true =>
    rw [quiet grows, if_pos rfl]
    exact ⟨Int.le_refl 0, Int.le_refl 0, fun some => absurd rfl some⟩
  | false =>
    rw [if_neg Bool.false_ne_true]
    by_cases nothing : item.want slack = 0
    · rw [nothing]
      exact ⟨Int.le_refl 0, nonneg, fun some => absurd rfl some⟩
    · have same := want_of_stays grows nothing
      rw [same]
      exact ⟨nonneg, Int.le_refl _, fun _ => Int.le_refl _⟩

theorem clippedSizes_of_served (needs : ∀ item ∈ items, 0 ≤ item.need)
    (quiet : ∀ item ∈ items, item.grows = true → item.want slack = 0)
    (served : List.Forall₂ Item.Served items (clippedSizes limit gap slack start items)) :
    clippedSizes limit gap slack start items = items.map (Item.want slack) := by
  induction items generalizing start with
  | nil => exact rfl
  | cons item rest ih =>
    obtain ⟨need, others⟩ := List.forall_mem_cons.mp needs
    obtain ⟨first, quietOthers⟩ := List.forall_mem_cons.mp quiet
    obtain ⟨servedFirst, servedOthers⟩ := List.forall₂_cons.mp served
    rw [clippedSizes, List.map_cons, ih others quietOthers servedOthers]
    congr 1
    obtain ⟨nonneg, atMost, -⟩ := want_of_quiet need first
    have enough := servedFirst.need
    cases grows : item.grows with
    | true =>
      rw [first grows]
      omega
    | false =>
      rw [grows, if_neg Bool.false_ne_true] at atMost
      omega

theorem clippedSizes_cons (nonneg : 0 ≤ item.want slack)
    (inside : start + item.want slack ≤ limit) :
    clippedSizes limit gap slack start (item :: rest) = item.want slack ::
        clippedSizes limit gap slack (start + item.want slack + gap) rest := by
  have size : max 0 (min (item.want slack) (limit - start)) = item.want slack := by omega
  rw [clippedSizes, size]

theorem clippedSizes_behind (behind : limit ≤ start) :
    clippedSizes limit gap slack start (item :: rest) =
      0 :: clippedSizes limit gap slack (start + gap) rest := by
  have size : max 0 (min (item.want slack) (limit - start)) = 0 := by omega
  rw [clippedSizes, size, Int.add_zero]

theorem served_iff_of_quiet (needs : ∀ item ∈ items, 0 ≤ item.need)
    (spaced : items.length ≤ 1 ∨ 0 ≤ gap)
    (quiet : ∀ item ∈ items, item.grows = true → item.want slack = 0)
    (fits : start + room gap items ≤ stop + gap) (before : stop ≤ limit) :
    List.Forall₂ Item.Served items (clippedSizes limit gap slack start items) ↔
      HollowOnly slack items := by
  induction items generalizing start with
  | nil => exact iff_of_true .nil fun _ none => absurd none List.not_mem_nil
  | cons item rest ih =>
    obtain ⟨need, others⟩ := List.forall_mem_cons.mp needs
    obtain ⟨first, quietOthers⟩ := List.forall_mem_cons.mp quiet
    obtain ⟨nonneg, atMost, enough⟩ := want_of_quiet need first
    have behind := room_nonneg_of_spaced needs spaced
    rw [room] at fits
    rw [clippedSizes_cons nonneg (by omega), List.forall₂_cons,
      served_want_iff need enough, HollowOnly, List.forall_mem_cons,
      ih others (spaced_tail spaced) quietOthers (by omega)]
    exact Iff.rfl

/-! ## Items that take up the slack -/

variable {taken : Prop}

theorem takenOnce_nil : TakenOnce gap stop limit taken [] := by
  intro front item back split
  exact absurd split (by simp)

theorem takenOnce_cons :
    TakenOnce gap stop limit taken (item :: rest) ↔ (item.Takes → taken →
          stop = limit ∧ room gap rest = 0 ∧ item.Hollow) ∧
        TakenOnce gap stop limit (taken ∨ item.Takes) rest := by
  constructor
  · intro once
    refine ⟨fun takes before => once [] item rest rfl takes (.inl before), ?_⟩
    rintro front other back rfl takes before
    refine once (item :: front) other back rfl takes ?_
    rcases before with (before | first) | ⟨earlier, member, takesEarlier⟩
    · exact .inl before
    · exact .inr ⟨item, List.mem_cons_self, first⟩
    · exact .inr ⟨earlier, List.mem_cons_of_mem item member, takesEarlier⟩
  · rintro ⟨first, others⟩ front other back split takes before
    cases front with
    | nil =>
      obtain ⟨rfl, rfl⟩ := List.cons.inj split
      refine first takes (before.resolve_right ?_)
      rintro ⟨earlier, member, -⟩
      exact absurd member List.not_mem_nil
    | cons head front =>
      obtain ⟨rfl, rfl⟩ := List.cons.inj split
      refine others front other back rfl takes ?_
      rcases before with before | ⟨earlier, member, takesEarlier⟩
      · exact .inl (.inl before)
      · rcases List.mem_cons.mp member with rfl | member
        · exact .inl (.inr takesEarlier)
        · exact .inr ⟨earlier, member, takesEarlier⟩

theorem takenOnce_congr {taken' : Prop} (same : taken ↔ taken') :
    TakenOnce gap stop limit taken items ↔ TakenOnce gap stop limit taken' items := by
  unfold TakenOnce
  simp only [same]

theorem not_hollow_of_less (stays : ¬ item.Takes)
    (less : item.want slack ≠ if item.grows then 0 else item.need) :
    ¬ (item.want slack = 0 → item.Hollow) := by
  intro hollow
  by_cases nothing : item.want slack = 0
  · have zero := (hollow nothing).need
    rw [nothing, zero, ite_self] at less
    exact less rfl
  · cases grows : item.grows with
    | true => exact nothing (want_of_grows grows stays)
    | false =>
      rw [grows, if_neg Bool.false_ne_true] at less
      exact less (want_of_stays grows nothing)

theorem served_iff_of_taken (needs : ∀ item ∈ items, 0 ≤ item.need)
    (spaced : items.length ≤ 1 ∨ 0 ≤ gap) (some : 0 < slack)
    (ends : start + room gap items = stop + gap) (before : stop ≤ limit) :
    (List.Forall₂ Item.Served items (clippedSizes limit gap slack start items) ∧
        start + extent gap (clippedSizes limit gap slack start items) = stop + gap) ↔
      HollowOnly slack items ∧ TakenOnce gap stop limit True items := by
  induction items generalizing start with
  | nil =>
    rw [room, Int.add_zero] at ends
    refine iff_of_true ⟨.nil, ?_⟩ ⟨?_, ?_⟩
    · rw [ends, clippedSizes, extent, List.sum_nil, List.length_nil]
      omega
    · exact fun _ none => absurd none List.not_mem_nil
    · exact takenOnce_nil
  | cons item rest ih =>
    obtain ⟨need, others⟩ := List.forall_mem_cons.mp needs
    have behind := room_nonneg_of_spaced needs spaced
    have spacedRest := spaced_tail spaced
    rw [room] at ends
    have still : True ∨ item.Takes ↔ True := iff_of_true (.inl trivial) trivial
    rw [takenOnce_cons, HollowOnly, List.forall_mem_cons, takenOnce_congr still]
    by_cases takes : item.Takes
    case pos =>
      have wantsAll := @want_of_takes slack item takes
      have wants : item.want slack ≠ 0 := by omega
      rw [if_pos takes.1] at ends
      by_cases reached : limit ≤ start
      case pos =>
        have last : stop = limit := by omega
        have empty : room gap rest = 0 := by omega
        have following := @ih (start + gap) others spacedRest (by omega)
        rw [clippedSizes_behind reached, List.forall₂_cons, extent_cons, served_zero_iff need]
        constructor
        · rintro ⟨⟨hollow, served⟩, total⟩
          obtain ⟨hollowOnly, once⟩ := following.mp ⟨served, by omega⟩
          exact ⟨⟨fun zero => absurd zero wants, hollowOnly⟩,
            fun _ _ => ⟨last, empty, hollow⟩, once⟩
        · rintro ⟨⟨-, hollowOnly⟩, first, once⟩
          obtain ⟨served, total⟩ := following.mpr ⟨hollowOnly, once⟩
          obtain ⟨-, -, hollow⟩ := first takes trivial
          exact ⟨⟨hollow, served⟩, by omega⟩
      case neg =>
        -- what the item takes up here is missing behind it
        refine iff_of_false ?_ ?_
        · rintro ⟨served, total⟩
          have positive : 0 < max 0 (min (item.want slack) (limit - start)) := by omega
          rw [clippedSizes, List.forall₂_cons] at served
          rw [clippedSizes, extent_cons] at total
          have atLeast := @room_le_extent gap rest _ served.2 clippedSizes_nonneg
          omega
        · rintro ⟨-, first, -⟩
          obtain ⟨last, empty, -⟩ := first takes trivial
          omega
    case neg =>
      obtain ⟨nonneg, atMost, enough⟩ :=
        @want_of_quiet slack item need fun grows => want_of_grows grows takes
      rw [clippedSizes_cons nonneg (by omega), List.forall₂_cons,
        extent_cons, served_want_iff need enough]
      by_cases all : item.want slack = if item.grows then 0 else item.need
      case pos =>
        rw [← all] at ends
        have following := @ih (start + item.want slack + gap) others spacedRest (by omega)
        constructor
        · rintro ⟨⟨hollow, served⟩, total⟩
          obtain ⟨hollowOnly, once⟩ := following.mp ⟨served, by omega⟩
          exact ⟨⟨hollow, hollowOnly⟩, fun first => absurd first takes, once⟩
        · rintro ⟨⟨hollow, hollowOnly⟩, -, once⟩
          obtain ⟨served, total⟩ := following.mpr ⟨hollowOnly, once⟩
          exact ⟨⟨hollow, served⟩, by omega⟩
      case neg =>
        have unserved := not_hollow_of_less takes all
        exact iff_of_false (fun both => unserved both.1.1) fun both => unserved both.1.1

theorem served_iff_of_slack (needs : ∀ item ∈ items, 0 ≤ item.need)
    (spaced : items.length ≤ 1 ∨ 0 ≤ gap) (some : 0 < slack)
    (small : ∀ item ∈ items, item.Takes → item.need ≤ slack)
    (ends : start + room gap items + slack = stop + gap) (before : stop ≤ limit) :
    (List.Forall₂ Item.Served items (clippedSizes limit gap slack start items) ∧
        start + extent gap (clippedSizes limit gap slack start items) = stop + gap) ↔
      HollowOnly slack items ∧ (∃ item ∈ items, item.Takes) ∧
        TakenOnce gap stop limit False items := by
  induction items generalizing start with
  | nil =>
    refine iff_of_false ?_ ?_
    · rintro ⟨-, total⟩
      rw [room] at ends
      rw [clippedSizes, extent, List.sum_nil, List.length_nil] at total
      omega
    · rintro ⟨-, ⟨item, member, -⟩, -⟩
      exact absurd member List.not_mem_nil
  | cons item rest ih =>
    obtain ⟨need, others⟩ := List.forall_mem_cons.mp needs
    obtain ⟨smallFirst, smallOthers⟩ := List.forall_mem_cons.mp small
    have behind := room_nonneg_of_spaced needs spaced
    have spacedRest := spaced_tail spaced
    rw [room] at ends
    rw [takenOnce_cons, HollowOnly, List.forall_mem_cons]
    by_cases takes : item.Takes
    case pos =>
      have wantsAll := @want_of_takes slack item takes
      have now : False ∨ item.Takes ↔ True := iff_of_true (.inr takes) trivial
      rw [if_pos takes.1] at ends
      rw [clippedSizes_cons (by omega) (by omega), List.forall₂_cons,
        extent_cons, takenOnce_congr now]
      have enough : item.need ≤ item.want slack := by
        rw [wantsAll]
        exact smallFirst takes
      rw [served_want_iff need fun _ => enough]
      have following :=
        @served_iff_of_taken limit gap slack
          (start + item.want slack + gap) stop rest others spacedRest some
          (by omega) before
      constructor
      · rintro ⟨⟨hollow, served⟩, total⟩
        obtain ⟨hollowOnly, once⟩ := following.mp ⟨served, by omega⟩
        exact ⟨⟨hollow, hollowOnly⟩, ⟨item, List.mem_cons_self, takes⟩,
          fun _ never => never.elim, once⟩
      · rintro ⟨⟨hollow, hollowOnly⟩, -, -, once⟩
        obtain ⟨served, total⟩ := following.mpr ⟨hollowOnly, once⟩
        exact ⟨⟨hollow, served⟩, by omega⟩
    case neg =>
      obtain ⟨nonneg, atMost, enough⟩ :=
        @want_of_quiet slack item need fun grows => want_of_grows grows takes
      have later : False ∨ item.Takes ↔ False :=
        iff_of_false (fun either => either.elim id takes) id
      rw [clippedSizes_cons nonneg (by omega), List.forall₂_cons,
        extent_cons, served_want_iff need enough, takenOnce_congr later,
        List.exists_mem_cons_iff, or_iff_right takes]
      by_cases all : item.want slack = if item.grows then 0 else item.need
      case pos =>
        rw [← all] at ends
        have following :=
          @ih (start + item.want slack + gap) others spacedRest smallOthers (by omega)
        constructor
        · rintro ⟨⟨hollow, served⟩, total⟩
          obtain ⟨hollowOnly, taker, once⟩ := following.mp ⟨served, by omega⟩
          exact ⟨⟨hollow, hollowOnly⟩, taker, fun first => absurd first takes, once⟩
        · rintro ⟨⟨hollow, hollowOnly⟩, taker, -, once⟩
          obtain ⟨served, total⟩ := following.mpr ⟨hollowOnly, taker, once⟩
          exact ⟨⟨hollow, served⟩, by omega⟩
      case neg =>
        have unserved := not_hollow_of_less takes all
        exact iff_of_false (fun both => unserved both.1.1) fun both => unserved both.1.1

/-! ## Whole rows -/

theorem kept_iff (needs : ∀ item ∈ items, 0 ≤ item.need) (spaced : items.length ≤ 1 ∨ 0 ≤ gap)
    (stays : ∀ item ∈ items, item.grows = false) (before : stop ≤ limit) :
    (List.Forall₂ Item.Served items (clippedSizes limit gap slack start items) ∧
        start + extent gap (clippedSizes limit gap slack start items) ≤ stop + gap) ↔
      HollowOnly slack items ∧ start + room gap items ≤ stop + gap := by
  have quiet : ∀ item ∈ items, item.grows = true → item.want slack = 0 :=
    fun item member grows => absurd (stays item member) (by simp [grows])
  constructor
  · rintro ⟨served, fits⟩
    rw [extent_of_served needs quiet served] at fits
    exact ⟨(served_iff_of_quiet needs spaced quiet fits before).mp served, fits⟩
  · rintro ⟨hollowOnly, fits⟩
    have served := (served_iff_of_quiet needs spaced quiet fits before).mpr hollowOnly
    rw [extent_of_served needs quiet served]
    exact ⟨served, fits⟩

theorem filled_iff (needs : ∀ item ∈ items, 0 ≤ item.need) (spaced : items.length ≤ 1 ∨ 0 ≤ gap)
    (nonneg : 0 ≤ slack) (small : ∀ item ∈ items, item.grows = true → item.need ≤ slack)
    (ends : start + room gap items + slack = stop + gap) (before : stop ≤ limit) :
    (List.Forall₂ Item.Served items (clippedSizes limit gap slack start items) ∧
        start + extent gap (clippedSizes limit gap slack start items) = stop + gap) ↔
      HollowOnly slack items ∧ (slack = 0 ∨ (∃ item ∈ items, item.Takes) ∧
            TakenOnce gap stop limit False items) := by
  by_cases nothing : slack = 0
  case neg =>
    rw [or_iff_right nothing]
    exact served_iff_of_slack needs spaced (by omega)
      (fun item member takes => small item member takes.1) ends before
  have quiet : ∀ item ∈ items, item.grows = true → item.want slack = 0 := by
    intro item _ grows
    by_cases takes : item.Takes
    · rw [want_of_takes takes, nothing]
    · exact want_of_grows grows takes
  have fits : start + room gap items = stop + gap := by omega
  have served := @served_iff_of_quiet limit gap slack start stop items needs
    spaced quiet fits.le before
  rw [or_iff_left_of_imp fun _ => nothing, and_iff_left nothing, ← served]
  refine and_iff_left_of_imp fun all => ?_
  rw [extent_of_served needs quiet all]
  exact fits

end

end Agar.Lib
