import CanonicalLR.Html.Markup
import CanonicalLR.Proofs.CellTexts

/-!
# Reading markup

A written page is read as tags and characters of texts.  The reader refuses everything that two
readers could take in different ways: an angle bracket in a text, an angle bracket or a single
quotation mark inside a tag, and a tag that does not end.  A page whose tags are made of plain names
and values is read as its pieces, whatever its texts are (`tokens?_render`).

Two things are looked up in what was read: the tags in order, by their text or by their name, and
the texts of the elements with given names, with the entities turned back into characters (`texts`).
What lines of a page hold of either is said for any rest behind them (`Page.Yields`).
-/

namespace CanonicalLR.Html

/-! ## Entities -/

/-- A text with its entities turned back into characters. -/
def unescape : List Char → List Char
  | [] => []
  | '&' :: 'a' :: 'm' :: 'p' :: ';' :: cs => '&' :: unescape cs
  | '&' :: 'l' :: 't' :: ';' :: cs => '<' :: unescape cs
  | '&' :: 'g' :: 't' :: ';' :: cs => '>' :: unescape cs
  | '&' :: 'q' :: 'u' :: 'o' :: 't' :: ';' :: cs => '"' :: unescape cs
  | '&' :: '#' :: 'x' :: '2' :: '7' :: ';' :: cs => '\'' :: unescape cs
  | c :: cs => c :: unescape cs

theorem unescape_cons {c : Char} (h : c ≠ '&') (cs : List Char) :
    unescape (c :: cs) = c :: unescape cs := by
  rw [unescape] <;> (intros; exact absurd ‹c = '&'› h)

theorem unescape_escapeChar (c : Char) (cs : List Char) :
    unescape (escapeChar c ++ cs) = c :: unescape cs := by
  unfold escapeChar
  split
  case h_6 hamp _ _ _ _ => exact unescape_cons hamp cs
  all_goals exact unescape.eq_def _

/-- **Texts can be read again**, also texts that look like entities. -/
theorem unescape_escape (cs : List Char) : unescape (cs.flatMap escapeChar) = cs := by
  induction cs with
  | nil => rw [List.flatMap_nil, unescape]
  | cons c cs ih => rw [List.flatMap_cons, unescape_escapeChar, ih]

/-- No angle bracket is left in a written text. -/
theorem not_bracket_of_mem_escapeChar {c d : Char} (h : d ∈ escapeChar c) : d ≠ '<' ∧ d ≠ '>' := by
  unfold escapeChar at h
  split at h
  case h_6 _ hlt hgt _ _ =>
    rw [List.mem_singleton.1 h]
    exact ⟨hlt, hgt⟩
  all_goals
    constructor
    all_goals
      rintro rfl
      exact absurd h (by decide)

/-! ## The reader -/

/-- A tag, as the text between its brackets, or a character of a text. -/
inductive Token where
  | tag (content : List Char)
  | char (c : Char)
deriving DecidableEq, Repr

/-- Where a reader stands: in a text, or in a tag outside or inside a quoted value, after what it
has read of the tag. -/
inductive Place where
  | text
  | tag (before : List Char)
  | value (before : List Char)

/-- The tags and characters of written markup. -/
def tokens? : Place → List Char → Option (List Token)
  | .text, [] => some []
  | .tag _, [] => none
  | .value _, [] => none
  | .text, c :: cs =>
    if c = '<' then tokens? (.tag []) cs
    else if c = '>' then none
    else (tokens? .text cs).map (.char c :: ·)
  | .tag before, c :: cs =>
    if c = '>' then (tokens? .text cs).map (.tag before :: ·)
    else if c = '"' then tokens? (.value (before ++ [c])) cs
    else if c = '<' ∨ c = '\'' then none
    else tokens? (.tag (before ++ [c])) cs
  | .value before, c :: cs =>
    if c = '"' then tokens? (.tag (before ++ [c])) cs
    else if c = '<' ∨ c = '>' then none
    else tokens? (.value (before ++ [c])) cs

/-- The characters of names of elements and attributes. -/
def isNameChar (c : Char) : Bool := c.isAlphanum || c = '-'

/-- The characters that do not end a quoted value. -/
def isValueChar (c : Char) : Bool := c ≠ '<' && c ≠ '>' && c ≠ '"'

/-- Whether the tag of a piece is made of plain names and values; texts are free. -/
def Piece.isPlain : Piece → Bool
  | .start name attributes => name.toList.all isNameChar &&
      attributes.all fun entry => entry.1.toList.all isNameChar && entry.2.toList.all isValueChar
  | .stop name => name.toList.all isNameChar
  | .text _ => true

/-- What a reader finds in a piece. -/
def Piece.tokens : Piece → List Token
  | .start name attributes =>
    [.tag (name.toList ++ attributes.flatMap (renderAttribute · |>.toList))]
  | .stop name => [.tag ('/' :: name.toList)]
  | .text content => (content.toList.flatMap escapeChar).map .char

section Reader

variable {before s cs : List Char} {p : Piece}

theorem ne_of_isNameChar {c d : Char} (h : isNameChar c = true) (hd : isNameChar d = false) :
    c ≠ d := by
  intro e
  rw [e, hd] at h
  cases h

theorem tokens?_name (h : s.all isNameChar = true) :
    tokens? (.tag before) (s ++ cs) = tokens? (.tag (before ++ s)) cs := by
  induction s generalizing before with
  | nil => rw [List.nil_append, List.append_nil]
  | cons c s ih =>
    rw [List.all_cons, Bool.and_eq_true] at h
    have hgt : c ≠ '>' := ne_of_isNameChar h.1 (by decide)
    have hquote : c ≠ '"' := ne_of_isNameChar h.1 (by decide)
    have hrest : ¬ (c = '<' ∨ c = '\'') :=
      not_or.2 ⟨ne_of_isNameChar h.1 (by decide), ne_of_isNameChar h.1 (by decide)⟩
    rw [List.cons_append, tokens?, if_neg hgt, if_neg hquote, if_neg hrest, ih h.2,
      List.append_assoc, List.singleton_append]

theorem tokens?_value (h : s.all isValueChar = true) :
    tokens? (.value before) (s ++ '"' :: cs) = tokens? (.tag (before ++ s ++ ['"'])) cs := by
  induction s generalizing before with
  | nil => rw [List.nil_append, List.append_nil, tokens?, if_pos rfl]
  | cons c s ih =>
    rw [List.all_cons, Bool.and_eq_true] at h
    obtain ⟨⟨hlt, hgt⟩, hquote⟩ : (c ≠ '<' ∧ c ≠ '>') ∧ c ≠ '"' := by simpa [isValueChar] using h.1
    rw [List.cons_append, tokens?, if_neg hquote, if_neg (not_or.2 ⟨hlt, hgt⟩), ih h.2,
      List.append_assoc before, List.singleton_append]

theorem tokens?_attribute {entry : String × String} (hname : entry.1.toList.all isNameChar = true)
    (hvalue : entry.2.toList.all isValueChar = true) :
    tokens? (.tag before) ((renderAttribute entry).toList ++ cs) =
      tokens? (.tag (before ++ (renderAttribute entry).toList)) cs := by
  have hlist : (renderAttribute entry).toList =
      ' ' :: (entry.1.toList ++ '=' :: '"' :: (entry.2.toList ++ ['"'])) := by
    simp [renderAttribute]
  have hspace : ∀ before cs, tokens? (.tag before) (' ' :: cs) =
      tokens? (.tag (before ++ [' '])) cs := fun before cs => by simp [tokens?]
  have hquote : ∀ before cs, tokens? (.tag before) ('=' :: '"' :: cs) =
      tokens? (.value (before ++ ['=', '"'])) cs := fun before cs => by simp [tokens?]
  rw [hlist]
  simp only [List.cons_append, List.append_assoc, List.nil_append]
  rw [hspace, tokens?_name hname, hquote, tokens?_value hvalue]
  simp

theorem tokens?_attributes {attributes : List (String × String)}
    (h : ∀ entry ∈ attributes,
      entry.1.toList.all isNameChar = true ∧ entry.2.toList.all isValueChar = true) :
    tokens? (.tag before) (attributes.flatMap (renderAttribute · |>.toList) ++ cs) =
      tokens? (.tag (before ++ attributes.flatMap (renderAttribute · |>.toList))) cs := by
  induction attributes generalizing before with
  | nil => rw [List.flatMap_nil, List.nil_append, List.append_nil]
  | cons entry attributes ih =>
    have hentry := h entry List.mem_cons_self
    rw [List.flatMap_cons, List.append_assoc, tokens?_attribute hentry.1 hentry.2,
      ih fun e he => h e (List.mem_cons_of_mem _ he), List.append_assoc]

theorem tokens?_text (h : ∀ c ∈ s, c ≠ '<' ∧ c ≠ '>') :
    tokens? .text (s ++ cs) = (tokens? .text cs).map (s.map .char ++ ·) := by
  induction s with
  | nil => exact Option.map_id'.symm
  | cons c s ih =>
    have hc := h c List.mem_cons_self
    rw [List.cons_append, tokens?, if_neg hc.1, if_neg hc.2,
      ih fun d hd => h d (List.mem_cons_of_mem _ hd), Option.map_map]
    rfl

theorem Piece.toList_render_start {name : String} {attributes : List (String × String)} :
    (Piece.start name attributes).render.toList =
      '<' :: (name.toList ++ (attributes.flatMap (renderAttribute · |>.toList) ++ ['>'])) := by
  simp [render, List.flatMap_map]

/-- A piece with a plain tag is read as itself, in front of any text. -/
theorem tokens?_piece (h : p.isPlain = true) :
    tokens? .text (p.render.toList ++ cs) = (tokens? .text cs).map (p.tokens ++ ·) := by
  cases p with
  | start name attributes =>
    rw [Piece.isPlain, Bool.and_eq_true] at h
    rw [Piece.toList_render_start]
    simp only [List.cons_append, List.append_assoc, List.nil_append]
    rw [tokens?, if_pos rfl, tokens?_name h.1,
      tokens?_attributes fun entry he => Bool.and_eq_true_iff.1 (List.all_eq_true.1 h.2 entry he),
      tokens?, if_pos rfl]
    rfl
  | stop name =>
    have hlist : (Piece.stop name).render.toList ++ cs =
        '<' :: '/' :: (name.toList ++ '>' :: cs) := by simp [Piece.render]
    have hslash : ∀ cs, tokens? (.tag []) ('/' :: cs) = tokens? (.tag ['/']) cs :=
      fun cs => by simp [tokens?]
    rw [hlist, tokens?, if_pos rfl, hslash, tokens?_name h, tokens?, if_pos rfl]
    rfl
  | text content =>
    have hlist : (Piece.text content).render.toList = content.toList.flatMap escapeChar :=
      String.toList_ofList
    rw [hlist]
    refine tokens?_text fun d hd => ?_
    obtain ⟨c, -, hc⟩ := List.mem_flatMap.1 hd
    exact not_bracket_of_mem_escapeChar hc

end Reader

/-! ## Pages -/

/-- What a reader finds in some lines, each with a line feed in front of it. -/
def Page.tokens (page : Page) : List Token :=
  page.flatMap fun line => .char '\n' :: line.flatMap Piece.tokens

/-- Whether all tags of a page are made of plain names and values. -/
def Page.IsPlain (page : Page) : Prop := ∀ line ∈ page, ∀ p ∈ line, p.isPlain = true

instance (page : Page) : Decidable page.IsPlain :=
  inferInstanceAs (Decidable (∀ line ∈ page, ∀ p ∈ line, p.isPlain = true))

theorem tokens?_line {line : List Piece} (h : ∀ p ∈ line, p.isPlain = true) (cs : List Char) :
    tokens? .text ((String.join (line.map Piece.render)).toList ++ cs) =
      (tokens? .text cs).map (line.flatMap Piece.tokens ++ ·) := by
  induction line with
  | nil => exact Option.map_id'.symm
  | cons p line ih =>
    rw [List.map_cons, String.join_cons, String.toList_append, List.append_assoc,
      tokens?_piece (h p List.mem_cons_self), ih fun q hq => h q (List.mem_cons_of_mem _ hq),
      Option.map_map, List.flatMap_cons]
    exact congrArg (Option.map · _) (funext fun ts => (List.append_assoc ..).symm)

theorem Page.toList_render_cons (line next : List Piece) (page : Page) :
    (Page.render (line :: next :: page)).toList =
      (String.join (line.map Piece.render)).toList ++
        '\n' :: (Page.render (next :: page)).toList := by
  unfold render
  rw [List.map_cons, List.map_cons, String.intercalate_cons_cons, String.toList_append,
    String.toList_append, List.append_assoc]
  rfl

/-- **A page is read as its pieces**, whatever its texts are. -/
theorem tokens?_render {page : Page} (h : page.IsPlain) :
    tokens? .text page.render.toList = some page.tokens.tail := by
  cases page with
  | nil => rfl
  | cons line page =>
    have hline := tokens?_line (h line List.mem_cons_self)
    show _ = some (line.flatMap Piece.tokens ++ Page.tokens page)
    induction page generalizing line with
    | nil =>
      have hlast := hline []
      rw [List.append_nil] at hlast
      rw [Page.render, List.map_singleton, String.intercalate_singleton]
      exact hlast
    | cons next page ih =>
      have hrest : Page.IsPlain (next :: page) := fun l hl => h l (List.mem_cons_of_mem _ hl)
      have hbreak : ∀ cs, tokens? .text ('\n' :: cs) = (tokens? .text cs).map (.char '\n' :: ·) :=
        fun cs => by simp [tokens?]
      rw [Page.toList_render_cons, hline, hbreak,
        ih next hrest (tokens?_line (hrest next List.mem_cons_self))]
      rfl

/-! ## Tags -/

/-- The text of a tag, attributes included. -/
def Token.tag? : Token → Option String
  | .tag content => some (String.ofList content)
  | .char _ => none

/-- The name in a tag; that of a closing tag begins with a slash. -/
def Token.name? : Token → Option String
  | .tag content => some (String.ofList (content.takeWhile (· ≠ ' ')))
  | .char _ => none

/-- The character of a text. -/
def Token.char? : Token → Option Char
  | .tag _ => none
  | .char c => some c

/-- The name in the tag that a piece is. -/
def Piece.name? : Piece → Option String
  | .start name _ => some name
  | .stop name => some ("/" ++ name)
  | .text _ => none

/-- The names in the tags of some lines, in order. -/
def Page.names (page : Page) : List String := page.flatMap (·.filterMap Piece.name?)

theorem Page.names_append (page rest : Page) : names (page ++ rest) = page.names ++ rest.names :=
  List.flatMap_append

theorem Page.tokens_append (page rest : Page) :
    tokens (page ++ rest) = page.tokens ++ rest.tokens := List.flatMap_append

theorem takeWhile_name {name rest : List Char} (h : name.all isNameChar = true)
    (hrest : rest.head? = none ∨ rest.head? = some ' ') :
    (name ++ rest).takeWhile (· ≠ ' ') = name := by
  have hname : ∀ c ∈ name, decide (c ≠ ' ') = true := by
    intro c hc
    exact decide_eq_true (ne_of_isNameChar (List.all_eq_true.1 h c hc) (by decide))
  rw [List.takeWhile_append_of_pos hname]
  cases rest with
  | nil => rw [List.takeWhile_nil, List.append_nil]
  | cons c rest =>
    obtain rfl : c = ' ' := by simpa using hrest
    rw [List.takeWhile_cons_of_neg (by decide), List.append_nil]

theorem filterMap_name?_tokens {p : Piece} (h : p.isPlain = true) :
    p.tokens.filterMap Token.name? = p.name?.toList := by
  cases p with
  | start name attributes =>
    rw [Piece.isPlain, Bool.and_eq_true] at h
    have hrest : (attributes.flatMap (renderAttribute · |>.toList)).head? = none ∨
        (attributes.flatMap (renderAttribute · |>.toList)).head? = some ' ' := by
      cases attributes with
      | nil => exact .inl rfl
      | cons entry attributes => exact .inr (by simp [renderAttribute])
    simp only [Piece.tokens, List.filterMap_cons, Token.name?, takeWhile_name h.1 hrest,
      String.ofList_toList]
    rfl
  | stop name =>
    have hslash : ('/' :: name.toList).takeWhile (· ≠ ' ') = '/' :: name.toList := by
      rw [List.takeWhile_cons_of_pos (by decide)]
      have hname := takeWhile_name h (.inl rfl : ([] : List Char).head? = none ∨ _)
      rw [List.append_nil] at hname
      rw [hname]
    have hlist : String.ofList ('/' :: name.toList) = "/" ++ name := by
      rw [← String.toList_inj, String.toList_ofList, String.toList_append]
      rfl
    simp only [Piece.tokens, List.filterMap_cons, Token.name?, hslash, hlist]
    rfl
  | text content =>
    rw [Piece.tokens, List.filterMap_map]
    exact List.filterMap_eq_nil_iff.2 fun _ _ => rfl

/-! ## Texts of elements -/

/-- Whether a tag has one of some names. -/
def Token.named (names : List String) (t : Token) : Bool := t.name?.any names.contains

/-- The contents of the elements with given names, outside of all of them or inside one of which
something has been read.  Elements of one group are not looked for inside each other. -/
def elementsFrom (names : List String) : Option (List Token) → List Token → List (List Token)
  | _, [] => []
  | none, t :: ts => elementsFrom names (if t.named names then some [] else none) ts
  | some inner, t :: ts =>
    if t.named (names.map ("/" ++ ·)) then inner :: elementsFrom names none ts
    else elementsFrom names (some (inner ++ [t])) ts

/-- The contents of the elements with given names. -/
def elements (names : List String) (ts : List Token) : List (List Token) :=
  elementsFrom names none ts

/-- The text between tags, with the entities turned back. -/
def textOf (ts : List Token) : String := String.ofList (unescape (ts.filterMap Token.char?))

/-- The texts of the elements with given names. -/
def texts (names : List String) (ts : List Token) : List String := (elements names ts).map textOf

section Elements

variable {names : List String} {ts inner rest : List Token} {t closing : Token}

theorem elements_skip (h : ∀ t ∈ ts, t.named names = false) :
    elements names (ts ++ rest) = elements names rest := by
  induction ts with
  | nil => rfl
  | cons t ts ih =>
    rw [← ih fun u hu => h u (List.mem_cons_of_mem _ hu)]
    show elementsFrom names (if t.named names then some [] else none) (ts ++ rest) = _
    rw [h t List.mem_cons_self]
    rfl

theorem elementsFrom_inside (h : ∀ t ∈ ts, t.named (names.map ("/" ++ ·)) = false)
    (hclosing : closing.named (names.map ("/" ++ ·)) = true) :
    elementsFrom names (some inner) (ts ++ closing :: rest) =
      (inner ++ ts) :: elements names rest := by
  induction ts generalizing inner with
  | nil => rw [List.nil_append, List.append_nil, elementsFrom, if_pos hclosing, elements]
  | cons t ts ih =>
    have ht : ¬ t.named (names.map ("/" ++ ·)) = true := by simp [h t List.mem_cons_self]
    rw [List.cons_append, elementsFrom, if_neg ht, ih fun u hu => h u (List.mem_cons_of_mem _ hu),
      List.append_assoc, List.singleton_append]

/-- An element is found with all that is inside it. -/
theorem elements_element (ht : t.named names = true)
    (h : ∀ t ∈ ts, t.named (names.map ("/" ++ ·)) = false)
    (hclosing : closing.named (names.map ("/" ++ ·)) = true) :
    elements names (t :: ts ++ closing :: rest) = ts :: elements names rest := by
  show elementsFrom names (if t.named names then some [] else none) (ts ++ closing :: rest) = _
  rw [ht]
  exact elementsFrom_inside h hclosing

end Elements

theorem textOf_text (content : String) : textOf (Piece.text content).tokens = content := by
  rw [textOf, Piece.tokens, List.filterMap_map]
  show String.ofList (unescape (List.filterMap some _)) = content
  rw [List.filterMap_some, unescape_escape, String.ofList_toList]

namespace Page

section Yields

variable {α β γ : Type} {read : List Token → List β} {page page' : Page} {found found' : List β}

/-- Whether some lines have plain tags, and a reader finds something in them, whatever stands behind
them. -/
structure Yields (read : List Token → List β) (page : Page) (found : List β) : Prop where
  plain : page.IsPlain
  reads : ∀ rest, read (page.tokens ++ rest) = found ++ read rest

theorem yields_empty : Page.Yields read [] [] :=
  ⟨fun _ h => absurd h List.not_mem_nil, fun _ => rfl⟩

theorem Yields.append (h : page.Yields read found) (h' : page'.Yields read found') :
    (page ++ page').Yields read (found ++ found') where
  plain := List.forall_mem_append.2 ⟨h.plain, h'.plain⟩
  reads rest := by rw [tokens_append, List.append_assoc, h.reads, h'.reads, List.append_assoc]

theorem Yields.flatMap {f : α → Page} {g : α → β} {xs : List α}
    (h : ∀ x ∈ xs, (f x).Yields read [g x]) : Page.Yields read (xs.flatMap f) (xs.map g) := by
  induction xs with
  | nil => exact yields_empty
  | cons x xs ih =>
    rw [List.flatMap_cons, List.map_cons]
    exact (h x List.mem_cons_self).append (ih fun y hy => h y (List.mem_cons_of_mem _ hy))

theorem Yields.map (h : page.Yields read found) (f : β → γ) :
    page.Yields (fun ts => (read ts).map f) (found.map f) := by
  refine ⟨h.plain, fun rest => ?_⟩
  show (read (page.tokens ++ rest)).map f = _ ++ (read rest).map f
  rw [h.reads, List.map_append]

/-- What is found in a page as it is written; the line feed in front of it does not matter. -/
theorem Yields.render (h : page.Yields read found) (hempty : read [] = [])
    (hbreak : ∀ ts, read (.char '\n' :: ts) = read ts) :
    (tokens? .text page.render.toList).map read = some found := by
  have hread := h.reads []
  rw [hempty, List.append_nil, List.append_nil] at hread
  rw [tokens?_render h.plain, Option.map_some, ← hread]
  cases page with
  | nil => rfl
  | cons line page => exact congrArg some (hbreak _).symm

end Yields

variable {names : List String} {page : Page}

/-- No tag is found in lines without its name. -/
theorem named_of_mem_tokens (h : page.IsPlain) (hnames : ∀ n ∈ page.names, n ∉ names) {t : Token}
    (ht : t ∈ page.tokens) : t.named names = false := by
  obtain ⟨line, hline, hmem⟩ := List.mem_flatMap.1 ht
  rcases List.mem_cons.1 hmem with rfl | hmem
  · rfl
  · obtain ⟨p, hp, hmem⟩ := List.mem_flatMap.1 hmem
    unfold Token.named
    cases hname : t.name? with
    | none => rfl
    | some name =>
      have hfound : name ∈ p.tokens.filterMap Token.name? := List.mem_filterMap.2 ⟨t, hmem, hname⟩
      rw [filterMap_name?_tokens (h line hline p hp), Option.mem_toList] at hfound
      have hn : name ∉ names :=
        hnames name (List.mem_flatMap.2 ⟨line, hline, List.mem_filterMap.2 ⟨p, hp, hfound⟩⟩)
      simpa using hn

theorem yields_nil (h : page.IsPlain) (hnames : ∀ n ∈ page.names, n ∉ names) :
    page.Yields (elements names) [] :=
  ⟨h, fun _ => elements_skip fun _ => named_of_mem_tokens h hnames⟩

section Element

variable {name : String} {attributes : List (String × String)} {content : List Piece}

theorem isPlain_stop (h : (Piece.start name attributes).isPlain = true) :
    (Piece.stop name).isPlain = true := (Bool.and_eq_true_iff.1 h).1

theorem named_of_tokens {p : Piece} {t : Token} {n : String} (hp : p.isPlain = true)
    (ht : p.tokens = [t]) (hn : p.name? = some n) (hmem : n ∈ names) : t.named names = true := by
  have hfound := filterMap_name?_tokens hp
  rw [ht, hn] at hfound
  have ht' : t.name? = some n := by
    cases hname : t.name? with
    | none => simp [hname] at hfound
    | some m => simpa [hname] using hfound
  simpa [Token.named, ht'] using hmem

theorem elements_pieces (hstart : (Piece.start name attributes).isPlain = true)
    (hname : name ∈ names) {ts rest : List Token}
    (h : ∀ t ∈ ts, t.named (names.map ("/" ++ ·)) = false) :
    elements names
      ((Piece.start name attributes).tokens ++ ts ++ (Piece.stop name).tokens ++ rest) =
      ts :: elements names rest := by
  rw [List.append_assoc]
  exact elements_element (named_of_tokens hstart rfl rfl hname) h
    (named_of_tokens (isPlain_stop hstart) rfl rfl (List.mem_map_of_mem hname))

/-- An element on lines of its own. -/
theorem yields_element (hstart : (Piece.start name attributes).isPlain = true)
    (hname : name ∈ names) (h : page.IsPlain)
    (hnames : ∀ n ∈ page.names, n ∉ names.map ("/" ++ ·)) :
    Page.Yields (elements names) ([.start name attributes] :: page ++ [[.stop name]])
      [page.tokens ++ [.char '\n']] where
  plain := List.forall_mem_append.2 ⟨List.forall_mem_cons.2 ⟨List.forall_mem_singleton.2 hstart, h⟩,
    List.forall_mem_singleton.2 (List.forall_mem_singleton.2 (isPlain_stop hstart))⟩
  reads rest := by
    have hinner : ∀ t ∈ page.tokens ++ [.char '\n'], t.named (names.map ("/" ++ ·)) = false := by
      intro t ht
      rcases List.mem_append.1 ht with ht | ht
      · exact named_of_mem_tokens h hnames ht
      · rw [List.mem_singleton.1 ht]
        rfl
    have hsplit : tokens ([.start name attributes] :: page ++ [[.stop name]]) ++ rest =
        .char '\n' :: ((Piece.start name attributes).tokens ++ (page.tokens ++ [.char '\n']) ++
          (Piece.stop name).tokens ++ rest) := by
      simp [tokens]
    rw [hsplit]
    exact elements_pieces hstart hname hinner

/-- An element on one line. -/
theorem yields_line (hstart : (Piece.start name attributes).isPlain = true) (hname : name ∈ names)
    (h : ∀ p ∈ content, p.isPlain = true)
    (hnames : ∀ n ∈ content.filterMap Piece.name?, n ∉ names.map ("/" ++ ·)) :
    Page.Yields (elements names) [.start name attributes :: content ++ [.stop name]]
      [content.flatMap Piece.tokens] where
  plain := List.forall_mem_singleton.2 <| List.forall_mem_append.2
    ⟨List.forall_mem_cons.2 ⟨hstart, h⟩, List.forall_mem_singleton.2 (isPlain_stop hstart)⟩
  reads rest := by
    have hline : ∀ n ∈ Page.names [content], n ∉ names.map ("/" ++ ·) := by
      rwa [Page.names, List.flatMap_singleton]
    have hinner : ∀ t ∈ content.flatMap Piece.tokens, t.named (names.map ("/" ++ ·)) = false := by
      intro t ht
      refine named_of_mem_tokens (List.forall_mem_singleton.2 h) hline ?_
      rw [tokens, List.flatMap_singleton]
      exact List.mem_cons_of_mem _ ht
    have hsplit : tokens [.start name attributes :: content ++ [.stop name]] ++ rest =
        .char '\n' :: ((Piece.start name attributes).tokens ++ content.flatMap Piece.tokens ++
          (Piece.stop name).tokens ++ rest) := by
      simp [tokens]
    rw [hsplit]
    exact elements_pieces hstart hname hinner

end Element

end Page

end CanonicalLR.Html
