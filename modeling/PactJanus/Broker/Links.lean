import PactJanus.Lib.Affixes
import PactJanus.Lib.Delimited
import PactJanus.Lib.Lists
import PactJanus.Lib.Text
import PactJanus.Lib.Utf8

namespace PactJanus.Broker.Links

open PactJanus.Lib PactJanus.Lib.Affixes PactJanus.Lib.Delimited PactJanus.Lib.Text

/-! Where the links of a broker's documents lead: URLs as their characters. -/

def endsAuthority (c : Char) : Bool := c ∈ ['/', '?', '#']

/-- `scheme://authority` of an absolute URL, and the rest; a URL with no scheme is all rest. -/
def splitOrigin (url : List Char) : List Char × List Char :=
  match cutAt "://".toList url with
  | none => ([], url)
  | some (scheme, rest) =>
    (scheme ++ "://".toList ++ rest.takeWhile fun c => !endsAuthority c, rest.dropWhile fun c => !endsAuthority c)

/-- The path a broker's own documents stand under. -/
def contextOf (rest : List Char) : List Char :=
  trimEnd ['/'] (rest.takeWhile fun c => !(c ∈ ['?', '#'] : Bool))

/-- A link's path and query, without the origin of an absolute link. -/
def linkPath (link : List Char) : List Char :=
  match cutAt "://".toList link with
  | some _ => if (splitOrigin link).2.isEmpty then ['/'] else (splitOrigin link).2
  | none => link

/-- Whether a path is under a context. -/
def within (context path : List Char) : Bool :=
  path == context || (stripPrefix context path).any fun rest => rest.head?.any endsAuthority

/-- Where a link is fetched from: the broker the user named. -/
def absolute (brokerUrl link : List Char) : List Char :=
  let origin := (splitOrigin brokerUrl).1
  let context := contextOf (splitOrigin brokerUrl).2
  let path := linkPath link
  if path.head? ≠ some '/' then origin ++ context ++ '/' :: path
  else if context.isEmpty || within context path then origin ++ path
  else origin ++ context ++ path

def upperHexDigit (n : Nat) : Char := "0123456789ABCDEF".toList.getD n '0'

def isUnreserved (byte : UInt8) : Bool :=
  let c := Char.ofNat byte.toNat
  c.isAlphanum || c ∈ ['-', '.', '_', '~']

def encodeByte (byte : UInt8) : List Char :=
  if isUnreserved byte then [Char.ofNat byte.toNat]
  else ['%', upperHexDigit (byte.toNat / 16), upperHexDigit (byte.toNat % 16)]

/-- A value as a path segment. -/
def encode (segment : String) : List Char := (Utf8.bytes segment).flatMap encodeByte

def template (name : String) : List Char := '\x7b' :: name.toList ++ ['\x7d']

/-- A templated link with its values filled in, one name after the other. -/
def fill (link : List Char) (values : List (String × String)) : List Char :=
  values.foldl (fun url p => replaceChars (template p.1) (encode p.2) 0 url) link

def expand (brokerUrl link : List Char) (values : List (String × String)) : List Char :=
  absolute brokerUrl (fill link values)

/-! The origin of every link is the broker's. -/

section Origin

variable {url : List Char}

private theorem exists_cons_of_head {path : List Char} {c : Char} (h : path.head? = some c) : ∃ more, path = c :: more := by
  cases path with
  | nil => cases h
  | cons d more => exact ⟨more, by rw [Option.some.inj h]⟩

/-- What stands before a path that starts with a slash is split off as the origin it was. -/
private theorem splitOrigin_origin (h : (cutAt "://".toList url).isSome) {path : List Char} (hpath : path.head? = some '/') :
    (cutAt "://".toList ((splitOrigin url).1 ++ path)).isSome ∧
      splitOrigin ((splitOrigin url).1 ++ path) = ((splitOrigin url).1, path) := by
  obtain ⟨⟨scheme, rest⟩, hcut⟩ := Option.isSome_iff_exists.1 h
  obtain ⟨more, rfl⟩ := exists_cons_of_head hpath
  have horigin : (splitOrigin url).1 = scheme ++ "://".toList ++ rest.takeWhile fun c => !endsAuthority c := by
    rw [splitOrigin, hcut]
  have hscheme : ¬"://".toList <:+: scheme := not_infix_of_cutAt (by decide) hcut
  have hauthority : ∀ c ∈ rest.takeWhile (fun c => !endsAuthority c), (!endsAuthority c) = true :=
    List.all_eq_true.1 List.all_takeWhile
  rw [horigin]
  generalize rest.takeWhile (fun c => !endsAuthority c) = authority at hauthority
  have hagain : cutAt "://".toList (scheme ++ "://".toList ++ authority ++ '/' :: more) =
      some (scheme, authority ++ '/' :: more) := by
    rw [List.append_assoc]
    exact cutAt_of_absent (by decide) hscheme (authority ++ '/' :: more)
  have htake : ('/' :: more).takeWhile (fun c => !endsAuthority c) = [] := List.takeWhile_cons_of_neg (by decide)
  have hdrop : ('/' :: more).dropWhile (fun c => !endsAuthority c) = '/' :: more := List.dropWhile_cons_of_neg (by decide)
  refine ⟨by rw [hagain]; rfl, ?_⟩
  rw [splitOrigin, hagain]
  dsimp only
  rw [List.takeWhile_append_of_pos hauthority, List.dropWhile_append_of_pos hauthority, htake, hdrop, List.append_nil]

/-- A context path is empty or starts with a slash. -/
private theorem contextOf_rooted (h : (cutAt "://".toList url).isSome) :
    contextOf (splitOrigin url).2 = [] ∨ (contextOf (splitOrigin url).2).head? = some '/' := by
  obtain ⟨⟨scheme, rest⟩, hcut⟩ := Option.isSome_iff_exists.1 h
  have hrest : (splitOrigin url).2 = rest.dropWhile fun c => !endsAuthority c := by rw [splitOrigin, hcut]
  obtain ⟨off, hoff, -⟩ := exists_trimEnd ['/'] ((splitOrigin url).2.takeWhile fun c => !(c ∈ ['?', '#'] : Bool))
  rw [← contextOf] at hoff
  cases hcontext : contextOf (splitOrigin url).2 with
  | nil => exact Or.inl rfl
  | cons c more =>
    refine Or.inr (congrArg some ?_)
    rw [hcontext] at hoff
    have hhead := congrArg List.head? hoff
    rw [List.head?_takeWhile, List.cons_append, List.head?_cons] at hhead
    obtain ⟨hfirst, hquery⟩ := Option.filter_eq_some_iff.1 hhead
    have hends : endsAuthority c = true := by
      have hdrop := List.head?_dropWhile_not (fun c => !endsAuthority c) rest
      rw [← hrest, hfirst] at hdrop
      simpa using hdrop
    simp [endsAuthority] at hends hquery
    tauto

/-- Every link leads to a path of the broker's origin, under its context. -/
private theorem absolute_rooted (h : (cutAt "://".toList url).isSome) (link : List Char) : ∃ path,
    absolute url link = (splitOrigin url).1 ++ path ∧ path.head? = some '/' ∧
      ((contextOf (splitOrigin url).2).isEmpty || within (contextOf (splitOrigin url).2) path) = true := by
  have hrooted := contextOf_rooted h
  generalize hcontext : contextOf (splitOrigin url).2 = context at hrooted
  have hunder : ∀ path : List Char, path.head? = some '/' →
      (context ++ path).head? = some '/' ∧ (context.isEmpty || within context (context ++ path)) = true := by
    intro path hpath
    refine ⟨?_, ?_⟩
    · rcases hrooted with rfl | hslash
      · exact hpath
      · rw [List.head?_append, hslash]
        rfl
    · rw [within, stripPrefix_append, Option.any_some, hpath]
      simp [endsAuthority]
  unfold absolute
  dsimp only
  rw [hcontext]
  split
  · obtain ⟨hhead, hwithin⟩ := hunder ('/' :: linkPath link) rfl
    exact ⟨_, List.append_assoc _ _ _, hhead, hwithin⟩
  · rename_i hslash
    rw [not_not] at hslash
    split
    · rename_i hwithin
      exact ⟨_, rfl, hslash, hwithin⟩
    · obtain ⟨hhead, hwithin⟩ := hunder (linkPath link) hslash
      exact ⟨_, List.append_assoc _ _ _, hhead, hwithin⟩

theorem splitOrigin_absolute (h : (cutAt "://".toList url).isSome) (link : List Char) :
    (splitOrigin (absolute url link)).1 = (splitOrigin url).1 := by
  obtain ⟨path, habsolute, hhead, -⟩ := absolute_rooted h link
  rw [habsolute, (splitOrigin_origin h hhead).2]

theorem absolute_absolute (h : (cutAt "://".toList url).isSome) (link : List Char) :
    absolute url (absolute url link) = absolute url link := by
  obtain ⟨path, habsolute, hhead, hwithin⟩ := absolute_rooted h link
  obtain ⟨hcut, hsplit⟩ := splitOrigin_origin h hhead
  obtain ⟨more, rfl⟩ := exists_cons_of_head hhead
  obtain ⟨cut, hcut⟩ := Option.isSome_iff_exists.1 hcut
  have hpath : linkPath (absolute url link) = '/' :: more := by
    rw [habsolute, linkPath, hcut, hsplit]
    rfl
  rw [absolute, hpath, if_neg (by simp), if_pos hwithin, habsolute]

end Origin

/-! What the values of templates put into a link. -/

/-- What parts a URL: its segments, its query and its fragment. -/
def partsUrl (c : Char) : Bool := c ∈ ['/', '?', '#']

def isBrace (c : Char) : Bool := c ∈ ['\x7b', '\x7d']

/-- The encoding of a value parts nothing and is no template. -/
theorem encode_plain (value : String) : ∀ c ∈ encode value, partsUrl c = false ∧ isBrace c = false := by
  have hall : ((List.range 256).all fun n =>
      (encodeByte (UInt8.ofNat n)).all fun c => !partsUrl c && !isBrace c) = true := by decide +kernel
  intro c hc
  obtain ⟨byte, -, hc⟩ := List.mem_flatMap.1 hc
  have hbyte := List.all_eq_true.1 hall byte.toNat (List.mem_range.2 byte.toNat_lt)
  rw [UInt8.ofNat_toNat] at hbyte
  simpa only [Bool.and_eq_true, Bool.not_eq_true'] using List.all_eq_true.1 hbyte c hc

private theorem replaceChars_skip (needle by' : List Char) (skip : Nat) (cs : List Char) :
    replaceChars needle by' skip cs = replaceChars needle by' 0 (cs.drop skip) := by
  induction skip generalizing cs with
  | zero => rfl
  | succ skip ih =>
    cases cs with
    | nil => cases skip <;> rfl
    | cons c rest => exact ih rest

private theorem replaceChars_found {needle : List Char} (hne : needle ≠ []) (by' rest : List Char) :
    replaceChars needle by' 0 (needle ++ rest) = by' ++ replaceChars needle by' 0 rest := by
  obtain ⟨c, more, rfl⟩ := List.exists_cons_of_ne_nil hne
  have hstarts : (c :: more).isPrefixOf (c :: (more ++ rest)) = true :=
    List.isPrefixOf_iff_prefix.2 (List.prefix_append (c :: more) rest)
  rw [List.cons_append, replaceChars, if_pos hstarts, replaceChars_skip]
  simp

private theorem replaceChars_other {needle : List Char} (by' : List Char) {c : Char} {rest : List Char}
    (h : ¬needle <+: c :: rest) : replaceChars needle by' 0 (c :: rest) = c :: replaceChars needle by' 0 rest := by
  rw [replaceChars, if_neg (mt List.isPrefixOf_iff_prefix.1 h)]

/-- Replacing a text that parts nothing by another leaves what parts a URL as it is. -/
private theorem filter_replaceChars {p : Char → Bool} {needle by' : List Char} (hne : needle ≠ [])
    (hneedle : needle.filter p = []) (hby : by'.filter p = []) (cs : List Char) :
    (replaceChars needle by' 0 cs).filter p = cs.filter p := by
  induction hn : cs.length using Nat.strong_induction_on generalizing cs with
  | _ n ih =>
    cases cs with
    | nil => rfl
    | cons c rest =>
      by_cases hstarts : needle <+: c :: rest
      · obtain ⟨tail, htail⟩ := hstarts
        have hlt : tail.length < n := by
          have hlength := congrArg List.length htail
          have hpos := List.length_pos_iff.2 hne
          rw [List.length_append, hn] at hlength
          omega
        rw [← htail, replaceChars_found hne, List.filter_append, List.filter_append, hneedle, hby, ih _ hlt tail rfl]
      · rw [replaceChars_other by' hstarts, List.filter_cons, List.filter_cons, ih _ (by rw [← hn]; exact Nat.lt_succ_self _) rest rfl]

/-- A name as the client's templates have them. -/
def PlainName (name : String) : Prop := ∀ c ∈ name.toList, partsUrl c = false ∧ isBrace c = false

theorem filter_fill {values : List (String × String)} (hnames : ∀ p ∈ values, PlainName p.1) (link : List Char) :
    (fill link values).filter partsUrl = link.filter partsUrl := by
  induction values generalizing link with
  | nil => rfl
  | cons p rest ih =>
    obtain ⟨hname, hrest⟩ := List.forall_mem_cons.1 hnames
    have htemplate : (template p.1).filter partsUrl = [] := by
      refine List.filter_eq_nil_iff.2 fun c hc => ?_
      rcases List.mem_append.1 hc with hc | hc
      · rcases List.mem_cons.1 hc with rfl | hc
        · decide
        · simp [(hname c hc).1]
      · rw [List.mem_singleton.1 hc]
        decide
    have hvalue : (encode p.2).filter partsUrl = [] := List.filter_eq_nil_iff.2 fun c hc => by
      simp [(encode_plain p.2 c hc).1]
    rw [fill, List.foldl_cons, ← fill, ih hrest]
    exact filter_replaceChars (by simp [template]) htemplate hvalue link

/-- A link is texts without braces and templates. -/
inductive Piece where
  | text (cs : List Char)
  | template (name : String)

def Piece.written : Piece → List Char
  | .text cs => cs
  | .template name => Links.template name

def written (pieces : List Piece) : List Char := pieces.flatMap Piece.written

private theorem written_cons (piece : Piece) (rest : List Piece) :
    written (piece :: rest) = piece.written ++ written rest := List.flatMap_cons

def Piece.Plain : Piece → Prop
  | .text cs => ∀ c ∈ cs, isBrace c = false
  | .template name => PlainName name

/-- A piece with the value of its name, the first of them, in place of a template. -/
def Piece.filled (values : List (String × String)) : Piece → Piece
  | .text cs => .text cs
  | .template name =>
    match values.lookup name with
    | some value => .text (encode value)
    | none => .template name

private theorem replaceChars_plain {name : String} (by' : List Char) {cs : List Char} (hcs : ∀ c ∈ cs, c ≠ '\x7b')
    (rest : List Char) :
    replaceChars (template name) by' 0 (cs ++ rest) = cs ++ replaceChars (template name) by' 0 rest := by
  induction cs with
  | nil => rfl
  | cons c more ih =>
    obtain ⟨hc, hmore⟩ := List.forall_mem_cons.1 hcs
    rw [List.cons_append, replaceChars_other by', ih hmore, List.cons_append]
    rintro ⟨tail, htail⟩
    exact hc (List.cons.inj htail).1.symm

private theorem template_starts_iff {name other : String} (hname : PlainName name) (hother : PlainName other)
    (rest : List Char) : template name <+: template other ++ rest ↔ name = other := by
  have hplain : ∀ s : String, PlainName s → ∀ c ∈ s.toList, (c == '\x7d') = false := by
    intro s hs c hc
    refine beq_false_of_ne ?_
    rintro rfl
    exact absurd (hs _ hc).2 (by decide)
  constructor
  · rintro ⟨tail, htail⟩
    have hclose : name.toList ++ '\x7d' :: tail = other.toList ++ '\x7d' :: rest := by
      simpa [template] using htail
    have hcut := congrArg (splitOnceBy (· == '\x7d')) hclose
    rw [splitOnceBy_append (hplain name hname) rfl, splitOnceBy_append (hplain other hother) rfl] at hcut
    exact String.toList_inj.1 (Prod.mk.inj (Option.some.inj hcut)).1
  · rintro rfl
    exact List.prefix_append _ _

/-- A piece with one name's value in place of its template. -/
def Piece.replaced (name value : String) : Piece → Piece
  | .text cs => .text cs
  | .template other => if other = name then .text (encode value) else .template other

private theorem replaceChars_written {name : String} (hname : PlainName name) (value : String) {pieces : List Piece}
    (hpieces : ∀ piece ∈ pieces, piece.Plain) :
    replaceChars (template name) (encode value) 0 (written pieces) = written (pieces.map (Piece.replaced name value)) := by
  induction pieces with
  | nil => rfl
  | cons piece rest ih =>
    obtain ⟨hpiece, hrest⟩ := List.forall_mem_cons.1 hpieces
    rw [List.map_cons, written_cons, written_cons, ← ih hrest]
    cases piece with
    | text cs =>
      refine replaceChars_plain (encode value) (fun c hc => ?_) (written rest)
      rintro rfl
      exact absurd (hpiece _ hc) (by decide)
    | template other =>
      by_cases heq : other = name
      · rw [heq, Piece.replaced, if_pos rfl]
        exact replaceChars_found (by simp [template]) (encode value) (written rest)
      · rw [Piece.replaced, if_neg heq]
        have hopen : Links.template other ++ written rest = '\x7b' :: (other.toList ++ ['\x7d'] ++ written rest) := rfl
        have hother : ¬Links.template name <+: '\x7b' :: (other.toList ++ ['\x7d'] ++ written rest) :=
          hopen ▸ mt (template_starts_iff hname hpiece _).1 (Ne.symm heq)
        have hplain : ∀ c ∈ other.toList ++ ['\x7d'], c ≠ '\x7b' := by
          rintro c hc rfl
          rcases List.mem_append.1 hc with hc | hc
          · exact absurd (hpiece _ hc).2 (by decide)
          · exact absurd (List.mem_singleton.1 hc) (by decide)
        rw [Piece.written, hopen, replaceChars_other _ hother, replaceChars_plain _ hplain]
        rfl

private theorem plain_replaced {name value : String} {piece : Piece} (h : piece.Plain) :
    (piece.replaced name value).Plain := by
  cases piece with
  | text cs => exact h
  | template other =>
    rw [Piece.replaced]
    split
    · exact fun c hc => (encode_plain value c hc).2
    · exact h

private theorem filled_replaced (name value : String) (values : List (String × String)) (piece : Piece) :
    (piece.replaced name value).filled values = piece.filled ((name, value) :: values) := by
  cases piece with
  | text cs => rfl
  | template other =>
    rw [Piece.replaced, Piece.filled, Lists.lookup_cons_ite]
    split
    · rfl
    · rfl

theorem fill_written {values : List (String × String)} (hnames : ∀ p ∈ values, PlainName p.1) {pieces : List Piece}
    (hpieces : ∀ piece ∈ pieces, piece.Plain) : fill (written pieces) values = written (pieces.map (Piece.filled values)) := by
  induction values generalizing pieces with
  | nil =>
    have hsame : ∀ piece : Piece, piece.filled [] = piece := fun piece => by cases piece <;> rfl
    rw [List.map_congr_left fun piece _ => hsame piece, List.map_id']
    rfl
  | cons p rest ih =>
    obtain ⟨hname, hrest⟩ := List.forall_mem_cons.1 hnames
    have hreplaced : ∀ piece ∈ pieces.map (Piece.replaced p.1 p.2), piece.Plain :=
      List.forall_mem_map.2 fun piece hpiece => plain_replaced (hpieces piece hpiece)
    rw [fill, List.foldl_cons, ← fill, replaceChars_written hname p.2 hpieces, ih hrest hreplaced, List.map_map]
    exact congrArg written (List.map_congr_left fun piece _ => filled_replaced p.1 p.2 rest piece)

/-- Every URL the client makes of a link has the broker's own origin, and making it again changes nothing. The values
of a link's templates part no segment, open no query and no fragment; where braces stand in a link only around names,
each template is replaced by the value of its name, and no further one comes of it. -/
theorem links_stay {url : List Char} (hurl : (cutAt "://".toList url).isSome) {values : List (String × String)}
    (hnames : ∀ p ∈ values, PlainName p.1) (link : List Char) :
    ((splitOrigin (absolute url link)).1 = (splitOrigin url).1 ∧
      (splitOrigin (expand url link values)).1 = (splitOrigin url).1 ∧
      absolute url (absolute url link) = absolute url link) ∧
    (fill link values).filter partsUrl = link.filter partsUrl ∧
    (∀ value, ∀ c ∈ encode value, partsUrl c = false ∧ isBrace c = false) ∧
    ∀ pieces : List Piece, (∀ piece ∈ pieces, piece.Plain) → written pieces = link →
      expand url link values = absolute url (written (pieces.map (Piece.filled values))) := by
  refine ⟨⟨splitOrigin_absolute hurl link, splitOrigin_absolute hurl _, absolute_absolute hurl link⟩,
    filter_fill hnames link, encode_plain, ?_⟩
  rintro pieces hpieces rfl
  rw [expand, fill_written hnames hpieces]

/-- A branch called as another template is, in a link with its braces doubled, is filled in again; and a template in a
link's query puts its value into the query. -/
theorem value_beyond_segment :
    ¬"\x7bversion\x7d".toList <:+: "/versions/\x7b\x7bbranch\x7d\x7d".toList ∧
      fill "/versions/\x7b\x7bbranch\x7d\x7d".toList [("branch", "version")] = "/versions/\x7bversion\x7d".toList ∧
      expand "https://broker.example".toList "/versions/\x7b\x7bbranch\x7d\x7d".toList
        [("branch", "version"), ("version", "7")] = "https://broker.example/versions/7".toList ∧
      expand "https://broker.example".toList "/versions?branch=\x7bbranch\x7d".toList [("branch", "main")] =
        "https://broker.example/versions?branch=main".toList := by
  decide +kernel

private theorem plainName_branch : PlainName "branch" := by
  have hall : "branch".toList.all (fun c => !partsUrl c && !isBrace c) = true := by decide
  intro c hc
  simpa using List.all_eq_true.1 hall c hc

theorem branch_link_stays :
    ((splitOrigin (absolute "https://broker.example/pact".toList "//other.example/\x7bbranch\x7d".toList)).1 =
        (splitOrigin "https://broker.example/pact".toList).1 ∧
      (splitOrigin (expand "https://broker.example/pact".toList "//other.example/\x7bbranch\x7d".toList
        [("branch", "feat/x?")])).1 = (splitOrigin "https://broker.example/pact".toList).1 ∧
      absolute "https://broker.example/pact".toList (absolute "https://broker.example/pact".toList
        "//other.example/\x7bbranch\x7d".toList) =
        absolute "https://broker.example/pact".toList "//other.example/\x7bbranch\x7d".toList) ∧
    (fill "//other.example/\x7bbranch\x7d".toList [("branch", "feat/x?")]).filter partsUrl =
      "//other.example/\x7bbranch\x7d".toList.filter partsUrl ∧
    (∀ value, ∀ c ∈ encode value, partsUrl c = false ∧ isBrace c = false) ∧
    ∀ pieces : List Piece, (∀ piece ∈ pieces, piece.Plain) → written pieces = "//other.example/\x7bbranch\x7d".toList →
      expand "https://broker.example/pact".toList "//other.example/\x7bbranch\x7d".toList [("branch", "feat/x?")] =
        absolute "https://broker.example/pact".toList (written (pieces.map (Piece.filled [("branch", "feat/x?")]))) :=
  links_stay (by decide) (List.forall_mem_singleton.2 plainName_branch) "//other.example/\x7bbranch\x7d".toList

end PactJanus.Broker.Links
