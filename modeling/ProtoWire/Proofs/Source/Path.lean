import ProtoWire.Code.Path
import ProtoWire.Proofs.Source.Word

/-!
# Paths of words

Whether words make a path is decided by the words alone: each has to be legal, and one that may be a
segment.
-/

namespace ProtoWire.Source

open Code

variable {place next : Place} {name : String}

namespace Read

variable {α β : Type}

theorem bind_eq_some_iff {x : Read α} {f : α → Read β} {result : β × Place} :
    (x >>= f).run place = some result ↔
      ∃ value next, x.run place = some (value, next) ∧ (f value).run next = some result := by
  rw [StateT.run_bind, Option.bind_eq_bind, Option.bind_eq_some_iff]
  simp only [Prod.exists]

theorem map_eq_some {x : Read α} {f : α → β} {value : β}
    (h : (f <$> x).run place = some (value, next)) :
    ∃ a, x.run place = some (a, next) ∧ f a = value := by
  rw [StateT.run_map, Option.map_eq_map, Option.map_eq_some_iff] at h
  obtain ⟨⟨a, next⟩, hx, heq⟩ := h
  cases heq
  exact ⟨a, hx, rfl⟩

theorem picked_eq_some {pick : TokenTree → Option α} {tree : TokenTree} {rest : List TokenTree}
    (hahead : place.ahead = tree :: rest) {value : α}
    (h : (picked pick).run place = some (value, next)) :
    pick tree = some value ∧ next.ahead = rest := by
  unfold picked at h
  obtain ⟨trees, _, htrees, h⟩ := bind_eq_some_iff.1 h
  cases htrees
  rw [hahead] at h
  obtain ⟨picked, _, hpicked, h⟩ := bind_eq_some_iff.1 h
  cases hpick : pick tree with
  | none =>
    rw [hpick] at hpicked
    cases hpicked
  | some found =>
    rw [hpick] at hpicked
    cases hpicked
    cases h
    exact ⟨rfl, rfl⟩

theorem mark_eq_some {text : String} {value : Unit}
    (h : (mark text).run place = some (value, next)) :
    afterMarks text.toList place.ahead = some next.ahead := by
  unfold mark at h
  obtain ⟨taken, between, htaken, h⟩ := bind_eq_some_iff.1 h
  unfold takesMark at htaken
  obtain ⟨trees, _, htrees, htaken⟩ := bind_eq_some_iff.1 htaken
  cases htrees
  split at htaken
  · next rest hrest =>
    cases htaken
    cases h
    exact hrest
  · cases htaken
    cases h

end Read

theorem startsMarks_angle_tailTrees (names : List String) :
    startsMarks "<" (tailTrees names) = false ∧
      Reader.startsTurbofish (tailTrees names) = false := by
  cases names with
  | nil => exact ⟨rfl, rfl⟩
  | cons name rest => exact ⟨rfl, rfl⟩

theorem isSegmentWord_of_nameOr {rest : List TokenTree} {text : String}
    (hahead : place.ahead = .word name :: rest)
    (h : (Read.nameOr ["Self"]).run place = some (text, next)) :
    isSegmentWord name = true ∧ next.ahead = rest := by
  unfold Read.nameOr at h
  obtain ⟨special, _, hspecial, h⟩ := Read.bind_eq_some_iff.1 h
  cases hspecial
  rw [hahead] at h
  split at h
  · next hword =>
    obtain ⟨-, hnext⟩ := Read.picked_eq_some hahead h
    have hwords : ∀ word ∈ ["Self"], isSegmentWord word = true := by decide
    exact ⟨hwords name (List.contains_iff_mem.1 hword), hnext⟩
  · obtain ⟨hname, hnext⟩ := Read.picked_eq_some hahead h
    rw [Option.ite_none_right_eq_some] at hname
    refine ⟨?_, hnext⟩
    rw [isSegmentWord, Bool.or_eq_true]
    exact .inr hname.1

theorem segment_eq_some {read : Reader} {rest : List String} {node : Node}
    (hahead : place.ahead = .word name :: tailTrees rest)
    (h : (Reader.segment read false).run place = some (node, next)) :
    isSegmentWord name = true ∧ next.ahead = tailTrees rest := by
  unfold Reader.segment at h
  obtain ⟨special, _, hspecial, h⟩ := Read.bind_eq_some_iff.1 h
  cases hspecial
  rw [hahead] at h
  split at h
  · next hword =>
    obtain ⟨text, _, htext, h⟩ := Read.bind_eq_some_iff.1 h
    obtain ⟨-, hnext⟩ := Read.picked_eq_some hahead htext
    cases h
    have hwords : ∀ word ∈ ["super", "self", "crate", "try"], isSegmentWord word = true := by
      decide
    exact ⟨hwords name (List.contains_iff_mem.1 hword), hnext⟩
  · obtain ⟨text, _, htext, h⟩ := Read.bind_eq_some_iff.1 h
    obtain ⟨hname, hnext⟩ := isSegmentWord_of_nameOr hahead htext
    obtain ⟨trees, _, htrees, h⟩ := Read.bind_eq_some_iff.1 h
    cases htrees
    obtain ⟨hangle, hturbofish⟩ := startsMarks_angle_tailTrees rest
    rw [hnext, hangle, hturbofish] at h
    cases h
    exact ⟨hname, hnext⟩

/-- Reads one more segment, if a separator is ahead. -/
def segmentRound (read : Reader) : Read (Option Node) := do
  if ← Read.sees fun trees => !(startsMarks "::" trees && !Reader.startsRoundItem trees) then
    return none
  else
    some <$> do
      Read.mark "::"
      Reader.segment read false

theorem rounds_segmentRound_eq_some {read : Reader} {fuel : Nat} {names : List String}
    {place next : Place} {nodes : List Node} (hahead : place.ahead = tailTrees names)
    (h : (Read.rounds (segmentRound read) fuel).run place = some (nodes, next)) :
    ∀ name ∈ names, isSegmentWord name = true := by
  induction fuel generalizing names place next nodes with
  | zero => cases h
  | succ fuel ih =>
    cases names with
    | nil =>
      intro name hname
      cases hname
    | cons name names =>
      rw [Read.rounds] at h
      obtain ⟨value, between, hround, h⟩ := Read.bind_eq_some_iff.1 h
      obtain ⟨ends, _, hends, hround⟩ := Read.bind_eq_some_iff.1 hround
      cases hends
      rw [hahead] at hround
      obtain ⟨node, hsegment, rfl⟩ := Read.map_eq_some hround
      obtain ⟨_, behind, hmark, hsegment⟩ := Read.bind_eq_some_iff.1 hsegment
      have hbehind := Read.mark_eq_some hmark
      rw [hahead] at hbehind
      obtain ⟨hname, hbetween⟩ := segment_eq_some (Option.some.inj hbehind).symm hsegment
      obtain ⟨more, _, hmore, -⟩ := Read.bind_eq_some_iff.1 h
      exact List.forall_mem_cons.2 ⟨hname, ih hbetween hmore⟩

/-- The words of a path that could be read may all be segments. -/
theorem path_eq_some {read : Reader} {rest : List String} {node : Node}
    (hahead : place.ahead = .word name :: tailTrees rest)
    (h : (Reader.path read false).run place = some (node, next)) :
    ∀ word ∈ name :: rest, isSegmentWord word = true := by
  unfold Reader.path at h
  obtain ⟨rooted, start, hstart, h⟩ := Read.bind_eq_some_iff.1 h
  obtain ⟨first, between, hfirst, h⟩ := Read.bind_eq_some_iff.1 h
  obtain ⟨more, _, hmore, -⟩ := Read.bind_eq_some_iff.1 h
  have hstart : start = place := by
    unfold Read.takesMark at hstart
    obtain ⟨trees, _, htrees, hstart⟩ := Read.bind_eq_some_iff.1 hstart
    cases htrees
    rw [hahead] at hstart
    cases hstart
    rfl
  rw [hstart] at hfirst
  obtain ⟨hname, hbetween⟩ := segment_eq_some hahead hfirst
  obtain ⟨_, _, hahead', hmore⟩ := Read.bind_eq_some_iff.1 hmore
  cases hahead'
  exact List.forall_mem_cons.2 ⟨hname, @rounds_segmentRound_eq_some read _ _ _ _ _ hbetween hmore⟩

end ProtoWire.Source

namespace ProtoWire.Code

open Source

theorem Path.read?_intercalate_eq_none {names : List String} (hnames : ∀ name ∈ names, IsWord name)
    (hbad : ¬ ∀ name ∈ names, isLegal name = true ∧ isSegmentWord name = true) :
    Path.read? ("::".intercalate names) = none := by
  cases names with
  | nil => exact absurd (fun _ h => by cases h) hbad
  | cons name rest =>
    obtain ⟨hname, hrest⟩ := List.forall_mem_cons.1 hnames
    rw [Option.eq_none_iff_forall_ne_some]
    intro path hpath
    obtain ⟨tokens, htokens, -⟩ := Option.bind_eq_some_iff.1 hpath
    obtain ⟨trees, htrees, htokens⟩ := Option.bind_eq_some_iff.1 htokens
    obtain ⟨⟨node, place⟩, hnode, -⟩ := Option.bind_eq_some_iff.1 htokens
    rw [TokenTree.scan?_intercalate hname hrest] at htrees
    split at htrees
    · next hlegal =>
      cases htrees
      have hwords := path_eq_some rfl hnode
      exact hbad fun word hword => ⟨List.all_eq_true.1 hlegal word hword, hwords word hword⟩
    · cases htrees

/-- The path of words: each has to be legal, and to be one that may be a segment. -/
theorem Path.ofNames?_eq {names : List String} (hne : names ≠ [])
    (hnames : ∀ name ∈ names, IsWord name) :
    Path.ofNames? names =
      if ∀ name ∈ names, isLegal name = true ∧ isSegmentWord name = true then
        some { rooted := false, segments := names.map .name }
      else none := by
  have hall : (!names.isEmpty && names.all fun name => isLegal name && isSegmentWord name) = true ↔
      ∀ name ∈ names, isLegal name = true ∧ isSegmentWord name = true := by
    simp [hne]
  unfold Path.ofNames?
  by_cases h : ∀ name ∈ names, isLegal name = true ∧ isSegmentWord name = true
  · rw [if_pos h, if_pos (hall.2 h)]
  · rw [if_neg h, if_neg (mt hall.1 h), Path.read?_intercalate_eq_none hnames h]

end ProtoWire.Code
