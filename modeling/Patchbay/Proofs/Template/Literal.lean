import Mathlib
import Patchbay.Proofs.Code.Data
import Patchbay.Template.Literal

/-!
The literal of a set of templates is data of the emitted language on a single line. What it is read
as is the set again, but for the sign of zero.
-/
namespace Patchbay

open Data (Reads)

def Piece.ofData? : Data → Option Piece
  | .string cs => some (.text (String.ofList cs))
  | .number n => n.index?.map .placeholder
  | _ => none

def Segment.ofData? : Data → Option Segment
  | .object [(['t'], .string ['f']), (['v'], .number n)] => some (.literal (.float n.toFloat))
  | .object [(['t'], .string ['s']), (['v'], .string cs)] =>
    some (.literal (.symbol (String.ofList cs)))
  | .object [(['t'], .string ['p']), (['v'], .array ds)] => (ds.mapM Piece.ofData?).map .text
  | _ => none

def Template.ofData? : Data → Option Template
  | .array ds => (ds.mapM Segment.ofData?).map .mk
  | _ => none

def Templates.ofList? : List Template → Option Templates
  | [] => none
  | first :: others => some ⟨first, others⟩

def Templates.ofData? : Data → Option Templates
  | .array ds => (ds.mapM Template.ofData?).bind ofList?
  | _ => none

/-- Reads a text that is the literal of a set of templates and nothing else. -/
def Templates.ofLiteral? (text : String) : Option Templates :=
  (Data.read? text.toList).bind ofData?

def Segment.signless : Segment → Segment
  | .literal (.float x) => .literal (.float (Numeral.signless x))
  | s => s

def Template.signless (t : Template) : Template := ⟨t.segments.map Segment.signless⟩

/-- The templates with zeros without a sign. -/
def Templates.signless (ts : Templates) : Templates :=
  ⟨ts.first.signless, ts.others.map Template.signless⟩

section Shows

variable {α : Type} {ofData? : Data → Option α}

/-- The text is read as data that stands for `a`. -/
def Shows (ofData? : Data → Option α) (text : String) (a : α) : Prop :=
  ∃ d, Reads text.toList d ∧ ofData? d = some a

theorem shows_items {texts : List String} {as : List α}
    (h : List.Forall₂ (Shows ofData?) texts as) :
    ∃ ds, List.Forall₂ Reads (texts.map String.toList) ds ∧ ds.mapM ofData? = some as := by
  induction h with
  | nil => exact ⟨[], .nil, rfl⟩
  | cons hitem _ ih =>
    obtain ⟨d, hreads, hd⟩ := hitem
    obtain ⟨ds, hitems, hds⟩ := ih
    exact ⟨d :: ds, .cons hreads hitems, by simp [hd, hds]⟩

theorem shows_array {texts : List String} {as : List α}
    (h : List.Forall₂ (Shows ofData?) texts as) :
    ∃ ds, Reads (arrayLiteral texts).toList (.array ds) ∧ ds.mapM ofData? = some as := by
  obtain ⟨ds, hitems, hds⟩ := shows_items h
  refine ⟨ds, ?_, hds⟩
  have htext : (arrayLiteral texts).toList =
      '[' :: ([',', ' '].intercalate (texts.map String.toList) ++ [']']) := by
    simp [arrayLiteral, String.toList_intercalate]
  rw [htext]
  exact Data.reads_array hitems

theorem shows_map {β : Type} {text : β → String} {a : β → α} (h : ∀ b, Shows ofData? (text b) (a b))
    (bs : List β) : List.Forall₂ (Shows ofData?) (bs.map text) (bs.map a) := by
  rw [List.forall₂_map_left_iff, List.forall₂_map_right_iff]
  exact List.forall₂_same.2 fun b _ => h b

end Shows

theorem reads_tagged {tag value : String} {d : Data}
    (htag : Text.quotedChars tag.toList = '"' :: (tag.toList ++ ['"'])) (h : Reads value.toList d) :
    Reads (taggedLiteral tag value).toList
      (.object [(['t'], .string tag.toList), (['v'], d)]) := by
  have htext (rest : List Char) : (taggedLiteral tag value).toList ++ rest =
      '\x7b' :: (['t'] ++ ':' :: ' ' :: (Text.quotedChars tag.toList ++ ',' :: ' ' ::
        (['v'] ++ ':' :: ' ' :: (value.toList ++ '\x7d' :: rest)))) := by
    simp [taggedLiteral, htag]
  have hlength := congrArg List.length (htext [])
  simp only [List.append_nil, List.length_cons, List.length_append, List.length_nil] at hlength
  refine ⟨⟨'\x7b', _, by simpa using htext [], rfl, by decide⟩, fun {fuel rest} hfuel _ => ?_⟩
  -- Each field takes a unit of fuel.
  obtain ⟨k, rfl⟩ : ∃ k, fuel = k + 2 := ⟨fuel - 2, by omega⟩
  have hvalue : Data.fields (k + 1) (['v'] ++ ':' :: ' ' :: (value.toList ++ '\x7d' :: rest)) =
      some ([(['v'], d)], rest) := Data.fields_last rfl h (by omega)
  have hobject : Data.fields (k + 2)
      (['t'] ++ ':' :: ' ' :: (Text.quotedChars tag.toList ++ ',' :: ' ' ::
        (['v'] ++ ':' :: ' ' :: (value.toList ++ '\x7d' :: rest)))) =
      some ([(['t'], .string tag.toList), (['v'], d)], rest) := by
    rw [Data.fields_next rfl (Data.reads_string _) (by omega), hvalue]
    rfl
  rw [htext, Data.value, Data.skipGaps_cons rfl]
  exact congrArg (Option.map _) hobject

theorem Piece.shows_literal (p : Piece) : Shows Piece.ofData? p.literal p := by
  cases p with
  | text s =>
    refine ⟨.string s.toList, ?_, by simp [ofData?]⟩
    rw [literal, Text.quoted, String.toList_ofList]
    exact Data.reads_string _
  | placeholder index =>
    refine ⟨.number (.decimal false ⟨index, 0⟩), ?_, rfl⟩
    rw [literal, Numeral.toList_toString]
    exact Data.reads_number _

theorem Segment.shows_literal (s : Segment) : Shows Segment.ofData? s.literalText s.signless := by
  match s with
  | .literal (.float x) =>
    refine ⟨_, reads_tagged rfl (d := .number (.ofFloat x)) ?_, ?_⟩
    · rw [Numeral.toList_numberLiteral]
      exact Data.reads_number _
    · exact congrArg (fun y => some (Segment.literal (.float y))) (Numeral.toFloat_ofFloat x)
  | .literal (.symbol s) =>
    refine ⟨_, reads_tagged rfl (d := .string s.toList) ?_, ?_⟩
    · rw [Text.quoted, String.toList_ofList]
      exact Data.reads_string _
    · exact congrArg (fun s => some (Segment.literal (.symbol s))) s.ofList_toList
  | .text pieces =>
    obtain ⟨ds, hreads, hds⟩ := shows_array (shows_map (a := id) Piece.shows_literal pieces)
    refine ⟨_, reads_tagged rfl hreads, ?_⟩
    rw [List.map_id] at hds
    exact congrArg (Option.map Segment.text) hds

theorem Template.shows_literal (t : Template) : Shows Template.ofData? t.literal t.signless := by
  obtain ⟨ds, hreads, hds⟩ := shows_array (shows_map Segment.shows_literal t.segments)
  exact ⟨.array ds, hreads, congrArg (Option.map Template.mk) hds⟩

theorem Templates.shows_literal (ts : Templates) :
    Shows Templates.ofData? ts.literal ts.signless := by
  obtain ⟨ds, hreads, hds⟩ := shows_array (shows_map Template.shows_literal ts.toList)
  exact ⟨.array ds, hreads, congrArg (Option.bind · ofList?) hds⟩

section OneLine

variable {s t : String} {c : Char}

/-- Neither a control character nor another that ends a line. -/
def Text.isInline (c : Char) : Bool :=
  !Text.isControl c && c.toNat ≠ 0x2028 && c.toNat ≠ 0x2029

def OneLine (text : String) : Prop := text.toList.all Text.isInline

theorem isInline_of_ascii (hlow : 0x20 ≤ c.toNat) (hhigh : c.toNat < 0x7f) : Text.isInline c := by
  simp only [Text.isInline, Text.isControl, Bool.and_eq_true, Bool.not_eq_true', decide_eq_true_eq,
    Bool.or_eq_false_iff, Bool.and_eq_false_iff, decide_eq_false_iff_not]
  omega

/-- Characters between two others of the ASCII table. -/
theorem isInline_of_between {a b : Char} (hab : 0x20 ≤ a.toNat ∧ b.toNat < 0x7f)
    (hc : a.val ≤ c.val ∧ c.val ≤ b.val) : Text.isInline c := by
  have hlow : a.toNat ≤ c.toNat := UInt32.le_iff_toNat_le.1 hc.1
  have hhigh : c.toNat ≤ b.toNat := UInt32.le_iff_toNat_le.1 hc.2
  exact isInline_of_ascii (hab.1.trans hlow) (hhigh.trans_lt hab.2)

theorem isInline_of_isAlphanum (hc : c.isAlphanum) : Text.isInline c := by
  simp only [Char.isAlphanum, Char.isAlpha, Char.isUpper, Char.isLower, Char.isDigit,
    Bool.or_eq_true, Bool.and_eq_true, decide_eq_true_eq] at hc
  rcases hc with (hc | hc) | hc
  · exact isInline_of_between (a := 'A') (b := 'Z') (by decide) hc
  · exact isInline_of_between (a := 'a') (b := 'z') (by decide) hc
  · exact isInline_of_between (a := '0') (b := '9') (by decide) hc

theorem isInline_of_isTokenChar (hc : Numeral.isTokenChar c) : Text.isInline c := by
  simp only [Numeral.isTokenChar, Text.isWordChar, Bool.or_eq_true, decide_eq_true_eq] at hc
  rcases hc with ((hc | rfl) | rfl) | rfl
  · exact isInline_of_isAlphanum hc
  all_goals rfl

theorem isInline_of_isHexDigit (hc : Toml.isHexDigit c) : Text.isInline c := by
  simp only [Toml.isHexDigit, Bool.or_eq_true, Bool.and_eq_true, decide_eq_true_eq] at hc
  rcases hc with (hc | hc) | hc
  · exact isInline_of_isAlphanum (by simp [Char.isAlphanum, hc])
  · exact isInline_of_between (a := 'a') (b := 'f') (by decide) hc
  · exact isInline_of_between (a := 'A') (b := 'F') (by decide) hc

theorem all_isInline_escaped (c : Char) : (Text.escaped c).all Text.isInline := by
  unfold Text.escaped
  split_ifs with hq hs hn hr hlong
  · rfl
  · rfl
  · rfl
  · rfl
  · have hdigits := List.all_eq_true.1 (Data.hex4_of_escaped hlong).2.1
    have hall : (Text.hex4 c.toNat).all Text.isInline :=
      List.all_eq_true.2 fun e he => isInline_of_isHexDigit (hdigits e he)
    exact hall
  · simp only [not_or, Bool.not_eq_true] at hlong
    simp [Text.isInline, hlong]

theorem OneLine.append (hs : OneLine s) (ht : OneLine t) : OneLine (s ++ t) := by
  rw [OneLine, String.toList_append, List.all_append, hs, ht]
  rfl

theorem OneLine.intercalate (ht : OneLine t) {items : List String} (h : ∀ s ∈ items, OneLine s) :
    OneLine (t.intercalate items) := by
  induction items with
  | nil => rfl
  | cons s items ih =>
    have hs := h s List.mem_cons_self
    cases items with
    | nil => rwa [String.intercalate_singleton]
    | cons s' items =>
      rw [String.intercalate_cons_cons]
      exact (hs.append ht).append (ih fun r hr => h r (List.mem_cons_of_mem _ hr))

theorem oneLine_quoted (s : String) : OneLine (Text.quoted s) := by
  have hbody : (s.toList.flatMap Text.escaped).all Text.isInline := by
    rw [List.all_flatMap]
    exact List.all_eq_true.2 fun c _ => all_isInline_escaped c
  rw [OneLine, Text.quoted, String.toList_ofList, Text.quotedChars, List.cons_append, List.all_cons,
    List.all_append, hbody]
  rfl

theorem oneLine_numeral {n : Numeral} (h : s.toList = n.text) : OneLine s := by
  rw [OneLine, h]
  refine List.all_eq_true.2 fun c hc => ?_
  rcases n.sign_or_token c hc with rfl | hc
  · rfl
  · exact isInline_of_isTokenChar hc

theorem oneLine_array {α : Type} {text : α → String} (h : ∀ a, OneLine (text a)) (as : List α) :
    OneLine (arrayLiteral (as.map text)) := by
  have hitems : ∀ s ∈ as.map text, OneLine s := List.forall_mem_map.2 fun a _ => h a
  have hopen : OneLine "[" := rfl
  have hcomma : OneLine ", " := rfl
  have hclose : OneLine "]" := rfl
  exact (hopen.append (hcomma.intercalate hitems)).append hclose

theorem oneLine_tagged {tag : String} (ht : OneLine tag) (hs : OneLine s) :
    OneLine (taggedLiteral tag s) := by
  have hopen : OneLine "\x7bt: \"" := rfl
  have hbetween : OneLine "\", v: " := rfl
  have hclose : OneLine "\x7d" := rfl
  exact (((hopen.append ht).append hbetween).append hs).append hclose

theorem Piece.oneLine_literal (p : Piece) : OneLine p.literal := by
  cases p with
  | text s => exact oneLine_quoted s
  | placeholder index => exact oneLine_numeral (Numeral.toList_toString index)

theorem Segment.oneLine_literal (s : Segment) : OneLine s.literalText := by
  match s with
  | .literal (.float x) =>
    exact oneLine_tagged rfl (oneLine_numeral (Numeral.toList_numberLiteral x))
  | .literal (.symbol s) => exact oneLine_tagged rfl (oneLine_quoted s)
  | .text pieces => exact oneLine_tagged rfl (oneLine_array Piece.oneLine_literal pieces)

theorem Template.oneLine_literal (t : Template) : OneLine t.literal := by
  rw [literal]
  exact oneLine_array Segment.oneLine_literal t.segments

theorem Templates.oneLine_literal (ts : Templates) : OneLine ts.literal := by
  rw [literal]
  exact oneLine_array Template.oneLine_literal ts.toList

end OneLine

section Alike

/-- The same segment, or two floats with the same literal. -/
def Segment.Alike : Segment → Segment → Prop
  | .literal (.float x), .literal (.float y) => numberLiteral x = numberLiteral y
  | s, s' => s = s'

def Templates.Alike (ts ts' : Templates) : Prop :=
  List.Forall₂ (fun t t' => List.Forall₂ Segment.Alike t.segments t'.segments) ts.toList ts'.toList

theorem forall₂_iff_map_eq {α β : Type} {f : α → β} {as as' : List α} :
    List.Forall₂ (fun a a' => f a = f a') as as' ↔ as.map f = as'.map f := by
  have heq : List.Forall₂ (· = ·) (as.map f) (as'.map f) ↔ as.map f = as'.map f := by
    rw [List.forall₂_eq_eq_eq]
  rw [← heq, List.forall₂_map_left_iff, List.forall₂_map_right_iff]

theorem Segment.alike_of_signless {s s' : Segment} (h : s.signless = s'.signless) :
    s.Alike s' := by
  unfold signless at h
  split at h
  · next x =>
    split at h
    · next y =>
      have hxy : Numeral.signless x = Numeral.signless y :=
        Atom.float.inj (Segment.literal.inj h)
      rw [Alike, ← Numeral.numberLiteral_signless x, hxy, Numeral.numberLiteral_signless]
    · next hother => exact absurd h.symm (hother _)
  · next hother =>
    split at h
    · exact absurd h (hother _)
    · subst h
      unfold Alike
      split
      · rfl
      · rfl

theorem Segment.Alike.literalText_eq {s s' : Segment} (h : s.Alike s') :
    s.literalText = s'.literalText := by
  unfold Alike at h
  split at h
  · next x y => exact congrArg (taggedLiteral "f") h
  · rw [h]

theorem Templates.alike_of_signless {ts ts' : Templates} (h : ts.signless = ts'.signless) :
    ts.Alike ts' := by
  have hlists : ts.toList.map Template.signless = ts'.toList.map Template.signless :=
    congrArg Templates.toList h
  refine (forall₂_iff_map_eq.2 hlists).imp fun t t' ht => ?_
  have hsegments : t.segments.map Segment.signless = t'.segments.map Segment.signless :=
    congrArg Template.segments ht
  exact (forall₂_iff_map_eq.2 hsegments).imp fun _ _ => Segment.alike_of_signless

theorem Templates.Alike.literal_eq {ts ts' : Templates} (h : ts.Alike ts') :
    ts.literal = ts'.literal := by
  have htemplates : List.Forall₂ (fun t t' => t.literal = t'.literal) ts.toList ts'.toList := by
    refine h.imp fun t t' ht => ?_
    have hsegments := forall₂_iff_map_eq.1 (ht.imp fun _ _ => Segment.Alike.literalText_eq)
    rw [Template.literal, Template.literal, hsegments]
  rw [literal, literal, forall₂_iff_map_eq.1 htemplates]

end Alike

theorem Templates.ofLiteral?_literal (ts : Templates) :
    ofLiteral? ts.literal = some ts.signless := by
  obtain ⟨d, hreads, hd⟩ := ts.shows_literal
  rw [ofLiteral?, hreads.read?_eq, Option.bind_some, hd]

/-- The literal of templates is a single line and is read as the templates, their floats as what the
literals of these stand for. Two sets have the same literal only where they differ in floats with
the same literal. The indices that a reference may have are floats and lose nothing when rounded to
one. -/
theorem Templates.literal_read_back (ts : Templates) :
    OneLine ts.literal ∧
    ofLiteral? ts.literal = some ts.signless ∧
    (∀ x, Numeral.float? (numberLiteral x) = some (Numeral.signless x)) ∧
    (∀ index ≤ maxPlaceholderIndex,
      (Numeral.float? (toString index)).bind Number.whole? = some (index : ℤ)) ∧
    ∀ ts' : Templates, ts.literal = ts'.literal ↔ ts.Alike ts' := by
  have hindex (index : ℕ) (h : index ≤ maxPlaceholderIndex) : index < 2 ^ 53 :=
    h.trans_lt (by decide)
  refine ⟨ts.oneLine_literal, ts.ofLiteral?_literal, Numeral.float?_numberLiteral,
    fun index h => Numeral.whole?_float?_toString (hindex index h),
    fun ts' => ⟨fun h => ?_, Alike.literal_eq⟩⟩
  have hread := ts.ofLiteral?_literal
  rw [h, ts'.ofLiteral?_literal] at hread
  exact alike_of_signless (Option.some.inj hread).symm

/-- Texts that look like parts of a literal. -/
def unruly : Templates :=
  ⟨⟨[.text [.text "\"]\x7d, ", .placeholder 2],
    .literal (.symbol "\x7bt: \"f\", v: 1\x7d\n")]⟩, [⟨[]⟩]⟩

theorem Templates.literal_read_back_unruly : 2 ≤ maxPlaceholderIndex ∧ OneLine unruly.literal ∧
    ofLiteral? unruly.literal = some unruly ∧
    (Numeral.float? (toString 2)).bind Number.whole? = some 2 := by
  obtain ⟨hline, hread, -, hindex, -⟩ := literal_read_back unruly
  exact ⟨by decide, hline, hread, hindex 2 (by decide)⟩

end Patchbay
