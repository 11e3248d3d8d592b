import Mathlib.Tactic.MkIffOfInductiveProp
import Deadwood.Proofs.BuiltGraph
import Deadwood.Proofs.SpanBounds
import Deadwood.Proofs.SplicedIntroductions

/-!
# What a removal leaves alone

A removal can disturb the rest of its file in two ways: what is left may read differently, when the cut begins or ends
inside a comment or a literal, and an introducer may be torn apart at an edge of the cut or come about at its seam. Where
neither happens, the definitions of the new text are those of the old one outside the span, in their order.
-/

set_option autoImplicit false
namespace Deadwood

open Source Text Scan

namespace Removal

/-! ## The parts of a view at a seam -/

namespace Seam

variable {seam : Seam} {view : List Char}

def front (seam : Seam) (view : List Char) : List Char :=
  view.take seam.kept

def back (seam : Seam) (view : List Char) : List Char :=
  view.drop (view.length - seam.rest)

def middle (seam : Seam) (view : List Char) : List Char :=
  (view.take (view.length - seam.rest)).drop seam.kept

theorem split_eq (within : seam.kept ≤ view.length - seam.rest) :
    view = seam.front view ++ (seam.middle view ++ seam.back view) := by
  have early : view.take seam.kept = (view.take (view.length - seam.rest)).take seam.kept := by
    rw [List.take_take, Nat.min_eq_left within]
  rw [front, middle, back, ← List.append_assoc, early, List.take_append_drop, List.take_append_drop]

theorem join_eq : seam.join view = seam.front view ++ (seam.filler ++ seam.back view) := by
  rw [join, List.append_assoc]
  rfl

theorem length_front (within : seam.kept ≤ view.length) : (seam.front view).length = seam.kept := by
  rw [front, List.length_take, Nat.min_eq_left within]

theorem length_middle (seam : Seam) (view : List Char) : (seam.middle view).length = view.length - seam.rest - seam.kept := by
  rw [middle, List.length_drop, List.length_take, Nat.min_eq_left (Nat.sub_le _ _)]

end Seam

variable {text view : List Char} {span : FunctionSpan}

theorem kept_seamOfCut_le (text : List Char) (span : FunctionSpan) : (seamOfCut text span).kept ≤ span.start := by
  have keptLe := (fits_seamOfCut text span).kept_le
  rw [List.length_take] at keptLe
  omega

theorem rest_seamOfCut_le (text : List Char) (span : FunctionSpan) : (seamOfCut text span).rest ≤ text.length - span.stop := by
  have restLe := (fits_seamOfCut text span).rest_le
  rwa [List.length_drop] at restLe

theorem length_front_seamOfCut (shows : Shows view text) (ordered : span.start ≤ span.stop)
    (within : span.stop ≤ text.length) : ((seamOfCut text span).front view).length = (seamOfCut text span).kept := by
  have keptLe := kept_seamOfCut_le text span
  have sameLength := shows.length_eq
  exact Seam.length_front (by omega)

theorem view_eq_parts (shows : Shows view text) (ordered : span.start ≤ span.stop) (within : span.stop ≤ text.length) :
    view = (seamOfCut text span).front view ++ ((seamOfCut text span).middle view ++ (seamOfCut text span).back view) := by
  have keptLe := kept_seamOfCut_le text span
  have restLe := rest_seamOfCut_le text span
  have sameLength := shows.length_eq
  exact Seam.split_eq (by omega)

theorem length_cut (ordered : span.start ≤ span.stop) (within : span.stop ≤ text.length) :
    (cut text span).length =
      (seamOfCut text span).kept + (seamOfCut text span).filler.length + (seamOfCut text span).rest := by
  have keptLe := kept_seamOfCut_le text span
  have restLe := rest_seamOfCut_le text span
  rw [cut_eq_join text span within, Seam.join, List.length_append, List.length_append, List.length_take,
    List.length_drop]
  omega

theorem splice_seamOfCut (shows : Shows view text) (ordered : span.start ≤ span.stop)
    (within : span.stop ≤ text.length) :
    Splice ((seamOfCut text span).front view) ((seamOfCut text span).middle view) (seamOfCut text span).filler
      ((seamOfCut text span).back view) span.start span.stop := by
  have fits := fits_seamOfCut text span
  have keptLe := kept_seamOfCut_le text span
  have restLe := rest_seamOfCut_le text span
  have sameLength := shows.length_eq
  have frontLength := length_front_seamOfCut shows ordered within
  have middleLength := Seam.length_middle (seamOfCut text span) view
  have before : ((seamOfCut text span).middle view).take (span.start - (seamOfCut text span).kept) =
      (view.take span.start).drop (seamOfCut text span).kept := by
    rw [Seam.middle, List.take_drop, List.take_take]
    congr 2
    omega
  have after : ((seamOfCut text span).middle view).drop (span.stop - (seamOfCut text span).kept) =
      (view.drop span.stop).take (text.length - span.stop - (seamOfCut text span).rest) := by
    rw [Seam.middle, List.drop_drop, List.take_drop]
    congr 2 <;> omega
  have blankView := (shows.drop span.stop).take (text.length - span.stop - (seamOfCut text span).rest)
  have blank := fits.blank
  have blankLines := fits.blankLines
  rw [List.length_drop] at blank blankLines
  constructor
  · omega
  · exact ordered
  · omega
  · rw [frontLength, before]
    exact ((shows.take span.start).drop _).isAllSpace fits.lost
  · rw [frontLength, after]
    exact blankView.isAllSpace blank
  · rw [frontLength, after]
    refine blankLines.imp (fun none => ?_) blankView.blankLines
    rw [Seam.back, none, Nat.sub_zero, List.drop_length]
  · exact fits.filler

/-! ## Clean cuts -/

/-- A cut that tears nothing apart and joins nothing. -/
@[mk_iff]
structure CleanCut (text : List Char) (span : FunctionSpan) : Prop where
  /-- What is left reads as before. -/
  reads : mask .code (cut text span) = (seamOfCut text span).join (mask .code text)
  /-- No introducer reaches over an edge of the span. -/
  apart : ∀ introducer ∈ introducers identifier, ∀ hit ∈ introducer.2.hits (mask .code text),
    hit.stop ≤ span.start ∨ span.stop ≤ hit.start ∨ span.start ≤ hit.start ∧ hit.stop ≤ span.stop
  /-- None reaches over the seam afterwards. -/
  joined : ∀ introducer ∈ introducers identifier, ∀ hit ∈ introducer.2.hits (mask .code (cut text span)),
    hit.stop ≤ (seamOfCut text span).kept ∨ (seamOfCut text span).kept ≤ hit.start
  /-- One begins just behind the seam if and only if it did. -/
  behind : ∀ introducer ∈ introducers identifier,
    (∃ hit ∈ introducer.2.hits (mask .code text), hit.start = text.length - (seamOfCut text span).rest) ↔
      ∃ hit ∈ introducer.2.hits (mask .code (cut text span)),
        hit.start = (cut text span).length - (seamOfCut text span).rest
  /-- A word before the seam runs on after it if and only if it did. -/
  unglued : Meets ((mask .code text).take (seamOfCut text span).kept) ((mask .code text).drop (seamOfCut text span).kept)
    ((mask .code (cut text span)).drop (seamOfCut text span).kept)

instance (window rest other : List Char) : Decidable (Meets window rest other) :=
  inferInstanceAs (Decidable (_ → _))

instance : Decidable (CleanCut text span) :=
  decidable_of_iff _ (cleanCut_iff text span).symm

theorem hit_of_sighting {anatomy : DefinitionKind × Anatomy} (member : anatomy ∈ Anatomy.all)
    {sighting : Anatomy.Sighting} (listed : sighting ∈ anatomy.2.sightings view) :
    ∃ hit ∈ (anatomy.2.introducer identifier).hits view,
      hit.start = sighting.1 ∧ hit.stop = sighting.1 + sighting.2.stop := by
  rw [Anatomy.hits_eq (Anatomy.regular_of_mem_all member)]
  exact ⟨_, List.mem_map_of_mem listed, by simp [Anatomy.hitOf, Mark.hit]⟩

theorem exists_hit_iff {anatomy : DefinitionKind × Anatomy} (member : anatomy ∈ Anatomy.all) {place : Nat} :
    (∃ hit ∈ (anatomy.2.introducer identifier).hits view, hit.start = place) ↔
      ∃ sighting ∈ anatomy.2.sightings view, sighting.1 = place := by
  rw [Anatomy.hits_eq (Anatomy.regular_of_mem_all member)]
  simp [Anatomy.hitOf, Mark.hit]

theorem CleanCut.undisturbed (clean : CleanCut text span) (ordered : span.start ≤ span.stop)
    (within : span.stop ≤ text.length) {anatomy : DefinitionKind × Anatomy} (member : anatomy ∈ Anatomy.all) :
    anatomy.2.Undisturbed ((seamOfCut text span).front (mask .code text)) ((seamOfCut text span).middle (mask .code text))
      (seamOfCut text span).filler ((seamOfCut text span).back (mask .code text)) span.start span.stop := by
  have keptLe := kept_seamOfCut_le text span
  have restLe := rest_seamOfCut_le text span
  have sameLength := (shows_mask .code text).length_eq
  have newLength := length_cut ordered within
  have frontLength := length_front_seamOfCut (shows_mask .code text) ordered within
  have middleLength := Seam.length_middle (seamOfCut text span) (mask .code text)
  have oldView := view_eq_parts (shows_mask .code text) ordered within
  have newView := clean.reads.trans Seam.join_eq
  have listed : (anatomy.1, anatomy.2.introducer identifier) ∈ introducers identifier := by
    rw [Anatomy.introducers_eq]
    exact List.mem_map_of_mem member
  constructor
  · rw [← oldView]
    intro sighting sighted
    obtain ⟨hit, found, start, stop⟩ := hit_of_sighting member sighted
    rw [← stop, ← start]
    exact clean.apart _ listed hit found
  · rw [← newView, frontLength]
    intro sighting sighted
    obtain ⟨hit, found, start, stop⟩ := hit_of_sighting member sighted
    rw [← stop, ← start]
    exact clean.joined _ listed hit found
  · have oldPlace : ((seamOfCut text span).front (mask .code text)).length +
        ((seamOfCut text span).middle (mask .code text)).length = text.length - (seamOfCut text span).rest := by
      omega
    have newPlace : ((seamOfCut text span).front (mask .code text)).length + (seamOfCut text span).filler.length =
        (cut text span).length - (seamOfCut text span).rest := by
      omega
    rw [← oldView, ← newView, oldPlace, newPlace, ← exists_hit_iff member, ← exists_hit_iff member]
    exact clean.behind _ listed

theorem CleanCut.meets (clean : CleanCut text span) (ordered : span.start ≤ span.stop)
    (within : span.stop ≤ text.length) :
    Meets ((seamOfCut text span).front (mask .code text))
      ((seamOfCut text span).middle (mask .code text) ++ (seamOfCut text span).back (mask .code text))
      ((seamOfCut text span).filler ++ (seamOfCut text span).back (mask .code text)) := by
  have frontLength := length_front_seamOfCut (shows_mask .code text) ordered within
  have oldView := view_eq_parts (shows_mask .code text) ordered within
  have newView := clean.reads.trans Seam.join_eq
  have oldRest := drop_of_split oldView
  have newRest := drop_of_split newView
  rw [frontLength] at oldRest newRest
  rw [← oldRest, ← newRest]
  exact clean.unglued

/-- The introductions after a clean cut are those outside the span, moved. -/
theorem CleanCut.introductions_eq (clean : CleanCut text span) (ordered : span.start ≤ span.stop)
    (within : span.stop ≤ text.length) :
    introductions (mask .code (cut text span)) =
      ((introductions (mask .code text)).filter fun introduction =>
        outside span.start span.stop introduction.position).map
          (moveBehind span.start ((seamOfCut text span).middle (mask .code text)).length
            (seamOfCut text span).filler.length) := by
  have oldView := view_eq_parts (shows_mask .code text) ordered within
  have spliced := introductions_splice (splice_seamOfCut (shows_mask .code text) ordered within)
    (clean.meets ordered within) fun _ member => clean.undisturbed ordered within member
  rwa [← oldView, ← clean.reads.trans Seam.join_eq] at spliced

/-! ## The definitions that are left -/

/-- Two lists in order correspond one by one if they correspond in both directions. -/
theorem forall₂_iff_of_ordered {α β : Type} {rel : α → β → Prop} {place : α → Nat} {place' : β → Nat}
    {firsts : List α} {seconds : List β} (ordered : firsts.Pairwise fun a b => place a < place b)
    (ordered' : seconds.Pairwise fun a b => place' a < place' b)
    (keeps : ∀ a ∈ firsts, ∀ b ∈ firsts, ∀ a' b', rel a a' → rel b b' → (place a < place b ↔ place' a' < place' b')) :
    List.Forall₂ rel firsts seconds ↔
      (∀ a ∈ firsts, ∃ b ∈ seconds, rel a b) ∧ ∀ b ∈ seconds, ∃ a ∈ firsts, rel a b := by
  induction firsts generalizing seconds with
  | nil =>
      rw [List.forall₂_nil_left_iff]
      refine ⟨fun none => by simp [none], fun ⟨_, back⟩ => List.eq_nil_iff_forall_not_mem.mpr fun b member => ?_⟩
      obtain ⟨a, none, _⟩ := back b member
      exact List.not_mem_nil none
  | cons a firsts ih =>
      obtain ⟨first, restOrdered⟩ := List.pairwise_cons.mp ordered
      have restKeeps := fun b member c member' => keeps b (List.mem_cons_of_mem a member) c (List.mem_cons_of_mem a member')
      constructor
      · intro each
        obtain ⟨b, seconds, related, rest, rfl⟩ := List.forall₂_cons_left_iff.mp each
        obtain ⟨forth, back⟩ := (ih restOrdered (List.pairwise_cons.mp ordered').2 restKeeps).mp rest
        constructor
        · intro c member
          rcases List.mem_cons.mp member with rfl | member
          · exact ⟨b, List.mem_cons_self, related⟩
          · obtain ⟨d, member', related'⟩ := forth c member
            exact ⟨d, List.mem_cons_of_mem b member', related'⟩
        · intro d member
          rcases List.mem_cons.mp member with rfl | member
          · exact ⟨a, List.mem_cons_self, related⟩
          · obtain ⟨c, member', related'⟩ := back d member
            exact ⟨c, List.mem_cons_of_mem a member', related'⟩
      · rintro ⟨forth, back⟩
        cases seconds with
        | nil =>
            obtain ⟨b, none, _⟩ := forth a List.mem_cons_self
            exact absurd none List.not_mem_nil
        | cons b seconds =>
            obtain ⟨first', restOrdered'⟩ := List.pairwise_cons.mp ordered'
            -- the first of one list can only correspond to the first of the other
            have related : rel a b := by
              obtain ⟨c, member, related⟩ := forth a List.mem_cons_self
              rcases List.mem_cons.mp member with rfl | member
              · exact related
              · obtain ⟨d, member', related'⟩ := back b List.mem_cons_self
                rcases List.mem_cons.mp member' with rfl | later
                · exact related'
                · have before := (keeps d member' a List.mem_cons_self b c related' related).mpr (first' c member)
                  exact absurd (first d later) (Nat.lt_asymm before)
            refine List.Forall₂.cons related ((ih restOrdered restOrdered' restKeeps).mpr ⟨?_, ?_⟩)
            · intro c member
              obtain ⟨d, member', related'⟩ := forth c (List.mem_cons_of_mem a member)
              rcases List.mem_cons.mp member' with rfl | member'
              · have before := (keeps a List.mem_cons_self c (List.mem_cons_of_mem a member) d d related related').mp
                  (first c member)
                exact absurd before (Nat.lt_irrefl _)
              · exact ⟨d, member', related'⟩
            · intro d member
              obtain ⟨c, member', related'⟩ := back d (List.mem_cons_of_mem b member)
              rcases List.mem_cons.mp member' with rfl | member'
              · have before := (keeps c List.mem_cons_self c List.mem_cons_self b d related related').mpr (first' d member)
                exact absurd before (Nat.lt_irrefl _)
              · exact ⟨c, member', related'⟩

/-- What a definition became of: one of the same name and kind at its place. -/
structure Survives (text : List Char) (span : FunctionSpan) (old new : Definition) : Prop where
  name : new.name = old.name
  kind : new.kind = old.kind
  place : placeAfterCut text span old.position = some new.position

/-- A visible character outside the span stands in what is left. -/
theorem place_of_visible (shows : Shows view text) (ordered : span.start ≤ span.stop) (within : span.stop ≤ text.length)
    {position : Nat} {c : Char} (present : view[position]? = some c) (visible : isSpace c = false)
    (isOutside : outside span.start span.stop position = true) :
    position < (seamOfCut text span).kept ∨
      text.length - (seamOfCut text span).rest ≤ position ∧ position < text.length := by
  have splice := splice_seamOfCut shows ordered within
  have keptLe := kept_seamOfCut_le text span
  have restLe := rest_seamOfCut_le text span
  have sameLength := shows.length_eq
  have frontLength := length_front_seamOfCut shows ordered within
  have middleLength := Seam.length_middle (seamOfCut text span) view
  have inView := (List.getElem?_eq_some_iff.mp present).1
  rw [view_eq_parts shows ordered within] at present
  rw [outside_iff] at isOutside
  apply Classical.byContradiction
  intro elsewhere
  rcases isOutside with before | after
  · rw [Anatomy.isSpace_of_lost splice (by omega) before present] at visible
    cases visible
  · rw [Anatomy.getElem?_blank splice after (by omega)] at present
    rw [isSpace_of_isAllSpace splice.blank present] at visible
    cases visible

theorem placeAfterCut_eq (ordered : span.start ≤ span.stop) (within : span.stop ≤ text.length) {position : Nat}
    (place : position < (seamOfCut text span).kept ∨
      text.length - (seamOfCut text span).rest ≤ position ∧ position < text.length) :
    placeAfterCut text span position =
      some (if position < span.start then position
        else position - (text.length - (seamOfCut text span).rest - (seamOfCut text span).kept) +
          (seamOfCut text span).filler.length) := by
  have keptLe := kept_seamOfCut_le text span
  have restLe := rest_seamOfCut_le text span
  have newLength := length_cut ordered within
  unfold placeAfterCut
  split
  · rfl
  · rw [if_neg (by omega)]
    congr 1
    omega

variable {reading : Reading} {file : SourceFile}

theorem exists_definitions_eq_map (reading : Reading) (file : SourceFile) (backend : file.kind = .backend) :
    ∃ define : Introduction → Definition,
      (extract reading file).definitions = (introductions (mask .code file.text)).map define ∧
        ∀ introduction, (define introduction).name = introduction.name ∧
          (define introduction).kind = introduction.kind ∧ (define introduction).position = introduction.position := by
  have code : codeOf file.kind file.text = file.text := by
    rw [backend]
    rfl
  rw [definitions_extract (by rw [backend]; decide), code]
  exact ⟨_, rfl, fun _ => ⟨rfl, rfl, rfl⟩⟩

theorem locate?_of_remove? {name : String} {shorter : List Char}
    (removed : remove? false name text = some (shorter, span)) :
    locate? false name text = some span ∧ shorter = cut text span := by
  obtain ⟨located, same, pair⟩ := Option.map_eq_some_iff.mp removed
  obtain ⟨rfl, rfl⟩ := Prod.mk.inj pair
  exact ⟨same, rfl⟩

theorem ordered_definitions (reading : Reading) (file : SourceFile) (backend : file.kind = .backend) :
    (extract reading file).definitions.Pairwise fun earlier later => earlier.position < later.position := by
  obtain ⟨define, same, keeps⟩ := exists_definitions_eq_map reading file backend
  rw [same, List.pairwise_map]
  refine (ordered_introductions (mask .code file.text)).imp fun {earlier later} before => ?_
  rw [(keeps earlier).2.2, (keeps later).2.2]
  exact before

/-- An introduction outside the span stands in what is left of the text. -/
theorem place_of_mem_introductions (ordered : span.start ≤ span.stop) (within : span.stop ≤ text.length)
    {introduction : Introduction} (introduced : introduction ∈ introductions (mask .code text))
    (isOutside : outside span.start span.stop introduction.position = true) :
    introduction.position < (seamOfCut text span).kept ∨
      text.length - (seamOfCut text span).rest ≤ introduction.position ∧ introduction.position < text.length := by
  obtain ⟨c, present, visible⟩ := visible_of_mem_introductions introduced
  exact place_of_visible (shows_mask .code text) ordered within present visible isOutside

theorem place_of_mem_definitions (backend : file.kind = .backend) (ordered : span.start ≤ span.stop)
    (within : span.stop ≤ file.text.length) {definition : Definition}
    (member : definition ∈ (extract reading file).definitions)
    (isOutside : outside span.start span.stop definition.position = true) :
    definition.position < (seamOfCut file.text span).kept ∨
      file.text.length - (seamOfCut file.text span).rest ≤ definition.position ∧
        definition.position < file.text.length := by
  obtain ⟨define, same, keeps⟩ := exists_definitions_eq_map reading file backend
  rw [same] at member
  obtain ⟨introduction, introduced, rfl⟩ := List.mem_map.mp member
  rw [(keeps introduction).2.2] at isOutside ⊢
  exact place_of_mem_introductions ordered within introduced isOutside

theorem Survives.isOutside {old new : Definition} (survives : Survives text span old new) :
    outside span.start span.stop old.position = true := by
  apply Classical.byContradiction
  intro inside
  rw [outside_iff] at inside
  have gone : placeAfterCut text span old.position = none := placeAfterCut_eq_none_iff.mpr (by omega)
  cases gone.symm.trans survives.place

/-- After a clean cut each definition outside the span is at its place, and there are no others. -/
theorem CleanCut.survive (clean : CleanCut file.text span) (backend : file.kind = .backend)
    (ordered : span.start ≤ span.stop) (within : span.stop ≤ file.text.length) :
    List.Forall₂ (Survives file.text span)
      ((extract reading file).definitions.filter fun definition => outside span.start span.stop definition.position)
      (extract reading { file with text := cut file.text span }).definitions := by
  obtain ⟨define, old, keeps⟩ := exists_definitions_eq_map reading file backend
  obtain ⟨define', new, keeps'⟩ :=
    exists_definitions_eq_map reading { file with text := cut file.text span } backend
  rw [old, new, clean.introductions_eq ordered within, List.filter_map, List.forall₂_map_left_iff, List.map_map,
    List.forall₂_map_right_iff]
  simp only [Function.comp_def, (keeps _).2.2]
  refine List.forall₂_same.mpr fun introduction member => ?_
  obtain ⟨introduced, isOutside⟩ := List.mem_filter.mp member
  obtain ⟨name, kind, position⟩ := keeps introduction
  obtain ⟨name', kind', position'⟩ := keeps' (moveBehind span.start
    ((seamOfCut file.text span).middle (mask .code file.text)).length (seamOfCut file.text span).filler.length introduction)
  have sameLength := (shows_mask .code file.text).length_eq
  refine ⟨?_, ?_, ?_⟩
  · rw [name', name, name_moveBehind]
  · rw [kind', kind, kind_moveBehind]
  · rw [position', position, position_moveBehind, Seam.length_middle, sameLength]
    exact placeAfterCut_eq ordered within (place_of_mem_introductions ordered within introduced isOutside)

/-- The definitions that are left are those outside the span, in their order and at their places, exactly if none of them
is lost and none comes about. That is so whenever the cut is clean. -/
theorem definitions_survive_iff {name : String} {shorter : List Char} (backend : file.kind = .backend)
    (removed : remove? false name file.text = some (shorter, span)) :
    (List.Forall₂ (Survives file.text span)
        ((extract reading file).definitions.filter fun definition => outside span.start span.stop definition.position)
        (extract reading { file with text := shorter }).definitions ↔
      (∀ old ∈ (extract reading file).definitions, outside span.start span.stop old.position = true →
        ∃ new ∈ (extract reading { file with text := shorter }).definitions, Survives file.text span old new) ∧
      ∀ new ∈ (extract reading { file with text := shorter }).definitions,
        ∃ old ∈ (extract reading file).definitions, Survives file.text span old new) ∧
    (CleanCut file.text span →
      List.Forall₂ (Survives file.text span)
        ((extract reading file).definitions.filter fun definition => outside span.start span.stop definition.position)
        (extract reading { file with text := shorter }).definitions) := by
  obtain ⟨located, rfl⟩ := locate?_of_remove? removed
  obtain ⟨ordered, within⟩ := locate?_bounds located
  refine ⟨?_, fun clean => clean.survive backend ordered within⟩
  rw [forall₂_iff_of_ordered ((ordered_definitions reading file backend).filter _)
    (ordered_definitions reading { file with text := cut file.text span } backend)]
  · simp only [List.mem_filter, and_imp]
    refine and_congr_right fun _ => forall₂_congr fun new _ => exists_congr fun old => ?_
    exact ⟨fun ⟨member, survives⟩ => ⟨member.1, survives⟩,
      fun ⟨member, survives⟩ => ⟨⟨member, survives.isOutside⟩, survives⟩⟩
  · intro first firstMember second secondMember first' second' firstSurvives secondSurvives
    obtain ⟨firstDefined, firstOutside⟩ := List.mem_filter.mp firstMember
    obtain ⟨secondDefined, secondOutside⟩ := List.mem_filter.mp secondMember
    have firstPlace := place_of_mem_definitions backend ordered within firstDefined firstOutside
    have secondPlace := place_of_mem_definitions backend ordered within secondDefined secondOutside
    have keptLe := kept_seamOfCut_le file.text span
    have restLe := rest_seamOfCut_le file.text span
    have firstNew := firstSurvives.place
    have secondNew := secondSurvives.place
    rw [placeAfterCut_eq ordered within firstPlace, Option.some.injEq] at firstNew
    rw [placeAfterCut_eq ordered within secondPlace, Option.some.injEq] at secondNew
    rw [← firstNew, ← secondNew]
    split <;> split <;> omega

/-- A file of two functions, one line each. -/
def pairFile : SourceFile :=
  { path := "A.gs", kind := .backend, text := "function ab() \x7b\x7d\nfunction cd() \x7b\x7d\n".toList, size := 34 }

def firstOfPair : FunctionSpan :=
  { name := "ab", start := 0, stop := 17, startLine := 1, endLine := 1 }

/-- The cut of the first of two functions is clean, and the second survives. -/
theorem second_of_pair_survives :
    remove? false "ab" pairFile.text = some ("function cd() \x7b\x7d\n".toList, firstOfPair) ∧
      CleanCut pairFile.text firstOfPair ∧
      List.Forall₂ (Survives pairFile.text firstOfPair)
        ((extract (Reading.ofLists [] [] []) pairFile).definitions.filter fun definition =>
          outside firstOfPair.start firstOfPair.stop definition.position)
        (extract (Reading.ofLists [] [] [])
          { pairFile with text := "function cd() \x7b\x7d\n".toList }).definitions := by
  have removed : remove? false "ab" pairFile.text = some ("function cd() \x7b\x7d\n".toList, firstOfPair) := by
    decide +kernel
  have clean : CleanCut pairFile.text firstOfPair := by decide +kernel
  exact ⟨removed, clean, (definitions_survive_iff rfl removed).2 clean⟩

/-- A file with a line comment that ends like a doc comment, above the first of two functions. -/
def commentedFile : SourceFile :=
  { path := "A.gs", kind := .backend
    text := "// /** old */\nfunction drop() \x7b\x7d\nfunction keep() \x7b\x7d\n".toList, size := 52 }

/-- From the opener inside the line comment to the end of the first function. -/
def afterSlashes : FunctionSpan :=
  { name := "drop", start := 3, stop := 33, startLine := 1, endLine := 2 }

/-- The slashes of the line comment stay, and what follows the removed function becomes part of the comment. -/
theorem slashes_swallow_the_next_function :
    remove? false "drop" commentedFile.text = some ("// function keep() \x7b\x7d\n".toList, afterSlashes) ∧
      ((extract (Reading.ofLists [] [] []) commentedFile).definitions.filter fun definition =>
        outside afterSlashes.start afterSlashes.stop definition.position).map (fun definition =>
          (definition.name, definition.kind)) = [("keep", .function)] ∧
      (extract (Reading.ofLists [] [] [])
        { commentedFile with text := "// function keep() \x7b\x7d\n".toList }).definitions = [] := by
  refine ⟨?_, ?_, ?_⟩ <;> decide +kernel

end Removal
end Deadwood
