import PactJanus.Plan.Scanning

namespace PactJanus.Plan.ReadBack

open PactJanus.Data PactJanus.Data.Json PactJanus.Lib PactJanus.Lib.Delimited PactJanus.Lib.Runs PactJanus.Plan.Model
open PactJanus.Plan.Pretty PactJanus.Plan.Scanning PactJanus.Plan.Tokens PactJanus.Plan.Value

/-! The pretty form, read back as it was marked. -/

/-- Tokens as display text, joined where they are of one kind. -/
def marked (tokens : List Token) : Marked := tokens.foldl (fun marked token => marked.push token.kind.kind token.text) .new

private theorem spread_marked (tokens : List Token) : (marked tokens).spread = spreadTokens tokens := by
  suffices h : ∀ acc : Marked, (tokens.foldl (fun marked token => marked.push token.kind.kind token.text) acc).spread =
      acc.spread ++ spreadTokens tokens by simpa [marked] using h .new
  induction tokens with
  | nil => simp [spreadTokens]
  | cons token rest ih =>
    intro acc
    rw [List.foldl_cons, ih, RunText.spread_push, List.append_assoc]
    rfl

/-- What starts a path. -/
def startsPath (path : List Char) : Prop := ['$'] <+: path ∨ ['~', '>'] <+: path

instance (path : List Char) : Decidable (startsPath path) := inferInstanceAs (Decidable (_ ∨ _))

/-- A path the scanner takes for one, at the end of its node's siblings or before others. -/
def legiblePath (last : Bool) (path : List Char) : Bool :=
  path = [] ∨ startsPath path ∧ '\n' ∉ path ∧ ¬" => ".toList <:+: path ∧ ¬(last = true ∧ path.getLast? = some ',')

mutual

/-- The scanner finds its way in the pretty form of a node, which is the last of its siblings or not. -/
def legible (last : Bool) : Node → Bool
  | .container _ children => legibleAll children
  | .action name children => !name.toList.any endsName && legibleAll children
  | .pipeline children => legibleAll children
  | .splat children => legibleAll children
  | .value _ => true
  | .resolve path => legiblePath last path.toList
  | .resolveCurrent path => legiblePath last path.toList
  | Node.annotation _ => true
termination_by structural node => node

def legibleAll : List Node → Bool
  | [] => true
  | node :: rest => legible rest.isEmpty node && legibleAll rest
termination_by structural nodes => nodes

end

/-- What is between a node and what comes after it. -/
def ending (last : Bool) : List Char := if last then ['\n'] else [',', '\n']

/-- The scanner reads a node's text as it was marked, from the start of its line. -/
def Reads (last : Bool) (marked : Marked) : Prop :=
  ∀ rest, scan true (marked.text ++ (ending last ++ rest)) = marked.spread ++ scan false (ending last ++ rest)

/-- The scanner goes wrong within a node's text. -/
def Strays (last : Bool) (marked : Marked) : Prop :=
  ∀ rest, ¬marked.spread <+: scan true (marked.text ++ (ending last ++ rest))

/-- The scanner reads a node's text as it was marked exactly where it is legible. -/
def Decides (last : Bool) (marked : Marked) (legible : Bool) : Prop :=
  (legible = true → Reads last marked) ∧ (legible = false → Strays last marked)

private def spaces (depth : Nat) : List Char := List.replicate (2 * depth) ' '

private theorem toList_indentStr (depth : Nat) : (indentStr depth).toList = spaces depth := String.toList_ofList

/-- A line with its indentation, where something other than a space comes after it. -/
private theorem scan_indented (depth : Nat) {text : List Char} (h : text.head? ≠ some ' ') :
    scan true (spaces depth ++ text) =
      lettered none (spaces depth) ++ taken (nodeHead text) text ++ scan false (text.drop (nodeHead text).2) := by
  have hspaces : ∀ c ∈ spaces depth, decide (c = ' ') = true := fun c hc => by simpa using List.eq_of_mem_replicate hc
  have htake : (spaces depth ++ text).takeWhile (· = ' ') = spaces depth :=
    takeWhile_append_stop hspaces fun c hc => by
      have : c ≠ ' ' := by
        rintro rfl
        exact h hc
      simpa using this
  have hdrop : unindented (spaces depth ++ text) = text := by
    rw [unindented, ← drop_takeWhile_length, htake, List.drop_left]
  rw [scan_lineStart, htake, hdrop]

/-! Where the scanner goes wrong. -/

private theorem head_taken {token : TokenKind × Nat} {text rest : List Char} (hne : text ≠ []) (hpos : 0 < token.2) :
    ∀ letter ∈ (taken token text ++ scan false rest).head?, letter.1 = token.1.kind := by
  obtain ⟨c, more, rfl⟩ := List.exists_cons_of_ne_nil hne
  obtain ⟨n, hn⟩ := Nat.exists_eq_succ_of_ne_zero (Nat.ne_of_gt hpos)
  intro letter hletter
  simp only [taken, hn, List.take_succ_cons, lettered, List.map_cons, List.cons_append, List.head?_cons] at hletter
  exact (Option.some.inj hletter) ▸ rfl

private theorem value_kind (text : List Char) :
    (value text).1.kind ≠ some .path ∧ (value text).1.kind ≠ some .action := by
  unfold value
  split
  · exact ⟨by simp [TokenKind.kind], by simp [TokenKind.kind]⟩
  · exact ⟨by simp [TokenKind.kind], by simp [TokenKind.kind]⟩
  · split
    · exact ⟨by simp [TokenKind.kind], by simp [TokenKind.kind]⟩
    · split
      · exact ⟨by simp [TokenKind.kind], by simp [TokenKind.kind]⟩
      · split <;> exact ⟨by simp [TokenKind.kind], by simp [TokenKind.kind]⟩

/-- What the scanner reads in the middle of a line starts with no node's head. -/
private theorem head_scan (text : List Char) :
    ∀ letter ∈ (scan false text).head?, letter.1 ≠ some .path ∧ letter.1 ≠ some .action := by
  intro letter hletter
  have hplain {letters : List (Option Kind × Char)} {c : Char} (h : scan false text = (none, c) :: letters) :
      letter.1 ≠ some .path ∧ letter.1 ≠ some .action := by
    rw [h] at hletter
    obtain rfl := Option.some.inj hletter
    exact ⟨by simp [TokenKind.kind], by simp [TokenKind.kind]⟩
  cases text with
  | nil => simp [scan_nil] at hletter
  | cons c more =>
    by_cases hline : c = '\n'
    · exact hplain (hline ▸ scan_newline more)
    · by_cases harrow : " => ".toList <+: c :: more
      · obtain ⟨letters, hscan⟩ := scan_arrow harrow
        exact hplain hscan
      · rw [scan_value (List.cons_ne_nil _ _) (by simpa using hline) harrow] at hletter
        rw [head_taken (List.cons_ne_nil _ _) (value_pos (List.cons_ne_nil _ _)) letter hletter]
        exact value_kind _

private theorem not_prefix_of_head {kind : Kind} {before : List (Option Kind × Char)} {text : List Char} (hne : text ≠ [])
    {after : List (Option Kind × Char)} (h : ∀ letter ∈ after.head?, letter.1 ≠ some kind) :
    ¬before ++ lettered (some kind) text <+: before ++ after := by
  rw [List.prefix_append_right_inj]
  obtain ⟨c, more, rfl⟩ := List.exists_cons_of_ne_nil hne
  rintro ⟨rest, hrest⟩
  exact h (some kind, c) (by simp [← hrest, lettered]) rfl

/-- A head that is cut short. -/
private theorem not_prefix_of_cut {kind : Kind} (hkind : kind = .path ∨ kind = .action) {before : List (Option Kind × Char)}
    {text rest : List Char} {n : Nat} (hn : n < text.length) :
    ¬before ++ lettered (some kind) text <+: before ++ lettered (some kind) (text.take n) ++ scan false rest := by
  have hsplit : lettered (some kind) text = lettered (some kind) (text.take n) ++ lettered (some kind) (text.drop n) := by
    rw [lettered, ← List.take_append_drop n text, List.map_append]
    simp [lettered]
  rw [hsplit, ← List.append_assoc]
  refine not_prefix_of_head (by simpa using hn) fun letter hletter => ?_
  rcases hkind with rfl | rfl
  · exact (head_scan rest letter hletter).1
  · exact (head_scan rest letter hletter).2

/-! Leaves. -/

private theorem nodeHead_plain {c : Char} (hc : c ∉ [':', '%', '$', '~', '-', '*', '#']) (more : List Char) :
    nodeHead (c :: more) = (.plain, 0) := by
  simp only [List.mem_cons, List.not_mem_nil, or_false, not_or] at hc
  unfold nodeHead
  split <;> simp_all

private theorem nodeHead_startsValue {text : List Char} (h : StartsValue text) : nodeHead text = (.plain, 0) := by
  obtain ⟨c, more, rfl, hc⟩ := h
  rcases hc with hc | hdigit | ⟨rfl, hdigit⟩
  · refine nodeHead_plain ?_ more
    simp only [List.mem_cons, List.not_mem_nil, or_false] at hc
    rcases hc with rfl | rfl | rfl | rfl | rfl | rfl | rfl | rfl <;> decide
  · refine nodeHead_plain (fun hmem => ?_) more
    simp only [List.mem_cons, List.not_mem_nil, or_false] at hmem
    rcases hmem with rfl | rfl | rfl | rfl | rfl | rfl | rfl <;> exact absurd hdigit (by decide)
  · cases more with
    | nil => rfl
    | cons d more =>
      have hd : d ≠ '>' := by
        rintro rfl
        simp [startsDigit, Char.isDigit] at hdigit
      unfold nodeHead
      split <;> simp_all

private theorem ending_follows (last : Bool) (rest : List Char) : Follows (ending last ++ rest) := by
  cases last <;> exact fun c hc => by simp [ending] at hc; simp [← hc]

private theorem spread_leaf (depth : Nat) (body : Marked) :
    (leaf (indentStr depth) body).spread = lettered none (spaces depth) ++ body.spread := by
  rw [leaf, RunText.spread_append, spread_plain, toList_indentStr]

private theorem text_leaf (depth : Nat) (body : Marked) : (leaf (indentStr depth) body).text = spaces depth ++ body.text := by
  rw [text_eq, spread_leaf, List.map_append, map_snd_lettered, text_eq]

private theorem decides_value (last : Bool) (depth : Nat) {body : Marked} (h : Readable body) :
    Decides last (leaf (indentStr depth) body) true := by
  refine ⟨fun _ rest => ?_, fun hfalse => nomatch hfalse⟩
  have hstarts := h.starts.append (ending last ++ rest)
  rw [text_leaf, spread_leaf, List.append_assoc, scan_indented depth (hstarts.head_ne (by decide) (by decide) (by decide)),
    nodeHead_startsValue hstarts, List.drop_zero, h.reads _ (ending_follows last rest)]
  simp [taken, lettered]

/-! Paths. -/

private theorem nodeHead_path {path : List Char} (h : startsPath path) (rest : List Char) :
    nodeHead (path ++ rest) = (.resolve, pathLen (path ++ rest)) := by
  rcases h with ⟨more, rfl⟩ | ⟨more, rfl⟩ <;> rfl

private theorem startsPath_of_nodeHead {text : List Char} (h : (nodeHead text).1.kind = some .path) : startsPath text := by
  unfold nodeHead at h
  split at h
  case h_3 rest => exact .inl (List.prefix_append ['$'] rest)
  case h_4 rest => exact .inr (List.prefix_append ['~', '>'] rest)
  all_goals exact nomatch h

private theorem spread_path (depth : Nat) (path : String) :
    (leaf (indentStr depth) (Marked.ofKind .path path)).spread =
      lettered none (spaces depth) ++ lettered (some .path) path.toList := by
  rw [spread_leaf, spread_ofKind]

private theorem text_path (depth : Nat) (path : String) :
    (leaf (indentStr depth) (Marked.ofKind .path path)).text = spaces depth ++ path.toList := by
  rw [text_eq, spread_path, List.map_append, map_snd_lettered, map_snd_lettered]

/-- What is read of a line after its indentation is no path where it does not start as one. -/
private theorem head_node {text : List Char} (h : ¬startsPath text) :
    ∀ letter ∈ (taken (nodeHead text) text ++ scan false (text.drop (nodeHead text).2)).head?, letter.1 ≠ some .path := by
  intro letter hletter
  by_cases hpos : 0 < (nodeHead text).2
  · by_cases hne : text = []
    · simp [hne, taken, lettered, scan_nil] at hletter
    · rw [head_taken hne hpos letter hletter]
      exact fun hkind => h (startsPath_of_nodeHead hkind)
  · have hzero : (nodeHead text).2 = 0 := Nat.eq_zero_of_not_pos hpos
    simp only [taken, hzero, List.take_zero, lettered, List.map_nil, List.nil_append, List.drop_zero] at hletter
    exact (head_scan text letter hletter).1

private theorem startsPath_append {path : List Char} (hne : path ≠ []) (h : ¬startsPath path) {rest : List Char}
    (hrest : rest.head? ≠ some '>') : ¬startsPath (path ++ rest) := by
  obtain ⟨c, more, rfl⟩ := List.exists_cons_of_ne_nil hne
  rintro (hdollar | htilde)
  · exact h (.inl (by simpa using hdollar))
  · cases more with
    | nil =>
      obtain ⟨after, hafter⟩ := htilde
      have htail : '>' :: after = rest := (List.cons.inj hafter).2
      exact hrest (htail ▸ rfl)
    | cons d more => exact h (.inr (by simpa using htilde))

/-- A text that does not start as a path is not read as one. -/
private theorem strays_of_head {last : Bool} {depth : Nat} {path : String} (hne : path.toList ≠ [])
    (h : ¬startsPath path.toList) : Strays last (leaf (indentStr depth) (Marked.ofKind .path path)) := by
  intro rest
  rw [spread_path, text_path, List.append_assoc]
  by_cases hspace : path.toList.head? = some ' '
  · obtain ⟨more, hmore⟩ := List.head?_eq_some_iff.1 hspace
    have htake : (spaces depth ++ (path.toList ++ (ending last ++ rest))).takeWhile (· = ' ') =
        spaces depth ++ (path.toList ++ (ending last ++ rest)).takeWhile (· = ' ') :=
      List.takeWhile_append_of_pos fun c hc => by simpa using List.eq_of_mem_replicate hc
    rw [scan_lineStart, htake, hmore]
    simp only [lettered, List.map_append, List.append_assoc]
    refine not_prefix_of_head (List.cons_ne_nil _ _) ?_
    simp
  · rw [scan_indented depth (by rwa [List.head?_append_of_ne_nil _ hne]), List.append_assoc]
    refine not_prefix_of_head hne (head_node (startsPath_append hne h ?_))
    cases last <;> simp [ending]

private theorem infix_concat {mark text : List Char} {x c : Char} (hx : mark.getLast? = some x) (hc : c ≠ x) :
    mark <:+: text ++ [c] ↔ mark <:+: text := by
  refine ⟨?_, fun h => h.trans (List.prefix_append _ _).isInfix⟩
  rintro ⟨before, after, h⟩
  rcases List.eq_nil_or_concat after with rfl | ⟨more, d, rfl⟩
  · have hlast := congrArg List.getLast? h
    rw [List.append_nil, List.getLast?_append, hx] at hlast
    simp [Option.or] at hlast
    exact absurd hlast.symm hc
  · rw [List.concat_eq_append, ← List.append_assoc] at h
    exact ⟨before, more, List.append_inj_left' h rfl⟩

private theorem pathLen_le (rest : List Char) : pathLen rest ≤ (rest.takeWhile (· ≠ '\n')).length := by
  unfold pathLen
  dsimp only
  split
  · rename_i hcut
    have hlen := congrArg List.length (eq_of_cutAt hcut)
    simp only [List.length_append] at hlen
    omega
  · split <;> omega

private theorem takeWhile_ending {path : List Char} (h : '\n' ∉ path) (last : Bool) (rest : List Char) :
    (path ++ (ending last ++ rest)).takeWhile (· ≠ '\n') = if last then path else path ++ [','] := by
  have hpath : ∀ c ∈ path, decide (c ≠ '\n') = true := fun c hc => decide_eq_true fun heq => h (heq ▸ hc)
  rw [List.takeWhile_append_of_pos hpath]
  cases last <;> simp [ending]

theorem pathLen_of_legible {path : List Char} {last : Bool} (hline : '\n' ∉ path) (harrow : ¬" => ".toList <:+: path)
    (hcomma : ¬(last = true ∧ path.getLast? = some ',')) (rest : List Char) :
    pathLen (path ++ (ending last ++ rest)) = path.length := by
  unfold pathLen
  rw [takeWhile_ending hline]
  cases last with
  | true =>
    dsimp only
    rw [if_pos rfl, (cutAt_eq_none (by decide)).2 harrow]
    exact if_neg fun h => hcomma ⟨rfl, h⟩
  | false =>
    dsimp only
    rw [if_neg Bool.false_ne_true, (cutAt_eq_none (by decide)).2 (mt (infix_concat rfl (by decide)).1 harrow)]
    simp

private theorem takeWhile_stopped {α : Type} {p : α → Bool} {a : α} (ha : p a = false) (before after : List α) :
    (before ++ a :: after).takeWhile p = before.takeWhile p := by
  induction before with
  | nil => simp [ha]
  | cons b rest ih => rw [List.cons_append, List.takeWhile_cons, List.takeWhile_cons, ih]

theorem pathLen_of_not_legible {path : List Char} {last : Bool} (hne : path ≠ [])
    (h : '\n' ∈ path ∨ " => ".toList <:+: path ∨ last = true ∧ path.getLast? = some ',') (rest : List Char) :
    pathLen (path ++ (ending last ++ rest)) < path.length := by
  by_cases hline : '\n' ∈ path
  · obtain ⟨before, after, rfl⟩ := List.append_of_mem hline
    refine Nat.lt_of_le_of_lt (pathLen_le _) ?_
    rw [List.append_assoc, List.cons_append, takeWhile_stopped (by simp), List.length_append, List.length_cons]
    exact Nat.lt_of_le_of_lt (List.takeWhile_sublist _).length_le (by omega)
  · have hpos := List.length_pos_iff.2 hne
    unfold pathLen
    rw [takeWhile_ending hline]
    dsimp only
    split
    · rename_i before after hcut
      have hlen := congrArg List.length (eq_of_cutAt hcut)
      have hmark : " => ".toList.length = 4 := rfl
      simp only [List.length_append, hmark] at hlen
      split at hlen
      · omega
      · rw [List.length_append, List.length_singleton] at hlen
        omega
    · rename_i hnone
      have harrow : ¬" => ".toList <:+: path := fun hwithin =>
        (cutAt_eq_none (by decide)).1 hnone (by split; exacts [hwithin, hwithin.trans (List.prefix_append _ _).isInfix])
      obtain ⟨hlast, hcomma⟩ := (h.resolve_left hline).resolve_left harrow
      rw [if_pos hlast, if_pos hcomma]
      omega

private theorem decides_path (last : Bool) (depth : Nat) (path : String) :
    Decides last (leaf (indentStr depth) (Marked.ofKind .path path)) (legiblePath last path.toList) := by
  have hhead {text : List Char} (h : startsPath text) (rest : List Char) : (text ++ rest).head? ≠ some ' ' := by
    rcases h with ⟨more, rfl⟩ | ⟨more, rfl⟩ <;> simp
  constructor
  · intro hlegible rest
    rw [legiblePath, decide_eq_true_eq] at hlegible
    rw [spread_path, text_path, List.append_assoc]
    rcases hlegible with hnil | ⟨hstarts, hline, harrow, hcomma⟩
    · have hnode : nodeHead (ending last ++ rest) = (.plain, 0) := by cases last <;> exact nodeHead_plain (by decide) _
      rw [hnil, List.nil_append, scan_indented depth (by cases last <;> simp [ending]), hnode]
      simp [taken, lettered]
    · rw [scan_indented depth (hhead hstarts _), nodeHead_path hstarts, pathLen_of_legible hline harrow hcomma, taken_append,
        List.drop_left]
      rfl
  · intro hlegible
    rw [legiblePath, decide_eq_false_iff_not, not_or] at hlegible
    obtain ⟨hne, hnot⟩ := hlegible
    by_cases hstarts : startsPath path.toList
    · intro rest
      have hillegible : '\n' ∈ path.toList ∨ " => ".toList <:+: path.toList ∨ last = true ∧ path.toList.getLast? = some ',' := by
        tauto
      have hlen := pathLen_of_not_legible hne hillegible rest
      rw [spread_path, text_path, List.append_assoc, scan_indented depth (hhead hstarts _), nodeHead_path hstarts, taken,
        List.take_append_of_le_length hlen.le]
      exact not_prefix_of_cut (.inl rfl) hlen
    · exact strays_of_head hne hstarts

/-! Annotations. -/

private def annotationText (text : String) : List Char :=
  '#' :: '\x7b' :: '\'' :: (escaped '\'' text.toList ++ ['\'', '\x7d'])

private theorem spread_annotated (depth : Nat) (text : String) : (annotated (indentStr depth) text).spread =
    lettered none (spaces depth) ++ lettered (some Kind.annotation) (annotationText text) := by
  have htext : ("#\x7b" ++ quoteString text ++ "\x7d").toList = annotationText text := by
    rw [String.toList_append, String.toList_append, quoteString, toList_quoted]
    simp [annotationText]
  rw [annotated, RunText.spread_push, spread_plain, toList_indentStr, htext]
  rfl

private theorem nodeHead_annotationText (text : String) (rest : List Char) :
    nodeHead (annotationText text ++ rest) = (TokenKind.annotation, (annotationText text).length) := by
  have hquoted : quotedLen '\'' (escaped '\'' text.toList ++ '\'' :: ('\x7d' :: rest)) =
      (escaped '\'' text.toList).length + 1 := quotedLen_escaped (by decide) _ _
  have hcons : annotationText text ++ rest =
      '#' :: '\x7b' :: '\'' :: (escaped '\'' text.toList ++ '\'' :: '\x7d' :: rest) := by
    simp [annotationText]
  have hdrop : ('#' :: '\x7b' :: '\'' :: (escaped '\'' text.toList ++ '\'' :: '\x7d' :: rest)).drop
      (3 + ((escaped '\'' text.toList).length + 1)) = '\x7d' :: rest := by
    rw [Nat.add_comm 3]
    simp [List.drop_append]
  have hclose : ('\x7d' :: rest).head? = some '\x7d' := rfl
  rw [hcons, nodeHead, hquoted, hdrop, if_pos hclose, annotationText]
  simp
  omega

private theorem decides_annotation (last : Bool) (depth : Nat) (text : String) :
    Decides last (annotated (indentStr depth) text) true := by
  refine ⟨fun _ rest => ?_, fun hfalse => nomatch hfalse⟩
  have htext : (annotated (indentStr depth) text).text = spaces depth ++ annotationText text := by
    rw [text_eq, spread_annotated, List.map_append, map_snd_lettered, map_snd_lettered]
  rw [htext, spread_annotated, List.append_assoc, scan_indented depth (by simp [annotationText]), nodeHead_annotationText,
    taken_append, List.drop_left]
  rfl

/-! Heads. -/

/-- A head is read as it was marked, before its children, exactly where it is legible. -/
structure HeadDecides (head : Marked) (legible : Bool) : Prop where
  reads : legible = true → ∀ depth rest, scan true (spaces depth ++ (head.text ++ '(' :: rest)) =
    lettered none (spaces depth) ++ head.spread ++ scan false ('(' :: rest)
  strays : legible = false → ∀ depth rest, ¬lettered none (spaces depth) ++ head.spread <+:
    scan true (spaces depth ++ (head.text ++ '(' :: rest))

/-- The head of a node of one kind, and the space after it. -/
private def headOf (kind : Kind) (text : String) : Marked := Marked.textPlain " " (Marked.ofKind kind text)

private theorem spread_headOf (kind : Kind) (text : String) :
    (headOf kind text).spread = lettered (some kind) text.toList ++ lettered none [' '] := by
  rw [headOf, spread_textPlain, spread_ofKind]
  rfl

private theorem text_headOf (kind : Kind) (text : String) (rest : List Char) :
    (headOf kind text).text ++ rest = text.toList ++ ' ' :: rest := by
  rw [text_eq, spread_headOf, List.map_append, map_snd_lettered, map_snd_lettered, List.append_assoc]
  rfl

private theorem headDecides_of {kind : Kind} {text : String} (token : TokenKind) (htoken : token.kind = some kind)
    (hne : text.toList ≠ []) (hspace : text.toList.head? ≠ some ' ')
    (hhead : ∀ rest, nodeHead (text.toList ++ ' ' :: rest) = (token, text.toList.length)) :
    HeadDecides (headOf kind text) true := by
  refine ⟨fun _ depth rest => ?_, fun hfalse => nomatch hfalse⟩
  rw [text_headOf, spread_headOf, scan_indented depth (by rwa [List.head?_append_of_ne_nil _ hne]), hhead, taken_append,
    htoken, List.drop_left, scan_space (by simp)]
  simp [lettered]

private theorem decides_operator {operator : String} (h : operator = "->" ∨ operator = "**") :
    HeadDecides (operatorPrefix operator) true := by
  rcases h with rfl | rfl <;> exact headDecides_of .operator rfl (by decide) (by decide) fun rest => rfl

private theorem decides_action (name : String) : HeadDecides (actionPrefix name) (!name.toList.any endsName) := by
  have htext : ("%" ++ name).toList = '%' :: name.toList := String.toList_append
  have hnode (rest : List Char) : nodeHead (("%" ++ name).toList ++ ' ' :: rest) =
      (.action, (('%' :: name.toList ++ ' ' :: rest).takeWhile fun c => !endsName c).length) := by
    rw [htext]
    rfl
  cases hname : name.toList.any endsName with
  | false =>
    refine headDecides_of .action rfl (by simp [htext]) (by simp [htext]) fun rest => ?_
    have hall : ∀ c ∈ '%' :: name.toList, (!endsName c) = true := by
      refine List.forall_mem_cons.2 ⟨by decide, fun c hc => ?_⟩
      rw [Text.forall_mem_eq_false hname c hc]
      rfl
    rw [hnode, takeWhile_append_stop hall (by simp [endsName]), htext]
  | true =>
    refine ⟨fun hfalse => (nomatch hfalse), fun _ depth rest => ?_⟩
    obtain ⟨c, hc, hends⟩ := List.any_eq_true.1 hname
    obtain ⟨before, after, hsplit⟩ := List.append_of_mem hc
    have hcut (rest : List Char) : (('%' :: name.toList ++ rest).takeWhile fun c => !endsName c).length <
        ('%' :: name.toList).length := by
      have hstop : (!endsName c) = false := by rw [hends]; rfl
      rw [hsplit, List.cons_append, List.append_assoc, List.cons_append, ← List.cons_append, takeWhile_stopped (p := fun c => !endsName c) hstop]
      refine Nat.lt_of_le_of_lt (List.takeWhile_sublist _).length_le ?_
      simp only [List.length_cons, List.length_append]
      omega
    have hprefix := hcut (' ' :: '(' :: rest)
    rw [show actionPrefix name = headOf .action ("%" ++ name) from rfl, text_headOf, spread_headOf, ← List.append_assoc]
    intro hwhole
    have hhead := (List.prefix_append _ _).trans hwhole
    rw [scan_indented depth (by simp [htext]), hnode, taken, htext, List.take_append_of_le_length hprefix.le] at hhead
    exact not_prefix_of_cut (.inr rfl) hprefix hhead

private theorem labelLen_bare {label : List Char} (h : ∀ c ∈ label, isLabelChar c = true) (rest : List Char) :
    labelLen (label ++ ' ' :: rest) = label.length := by
  have htake : (label ++ ' ' :: rest).takeWhile isLabelChar = label := takeWhile_append_stop h (by simp; decide)
  unfold labelLen
  split
  · rename_i more heq
    cases label with
    | nil => nomatch heq
    | cons c label =>
      obtain ⟨rfl, -⟩ := List.cons.inj heq
      exact absurd (h '"' List.mem_cons_self) (by decide)
  · rw [htake]

private theorem isLabelChar_of_alpha {c : Char} (h : c.isAlpha = true) : isLabelChar c = true := by
  simp [isLabelChar, Char.isAlphanum, h]

private theorem labelLen_quoteLabel (label : String) (rest : List Char) :
    labelLen ((quoteLabel label).toList ++ ' ' :: rest) = (quoteLabel label).toList.length := by
  unfold quoteLabel
  split
  · rename_i hbare
    refine labelLen_bare ?_ rest
    unfold isBareLabel at hbare
    split at hbare
    · rename_i c more hlabel
      rw [Bool.and_eq_true, List.all_eq_true] at hbare
      rw [hlabel, List.forall_mem_cons]
      exact ⟨isLabelChar_of_alpha hbare.1, hbare.2⟩
    · nomatch hbare
  · have hlen : quotedLen '"' (escaped '"' label.toList ++ '"' :: ' ' :: rest) = (escaped '"' label.toList).length + 1 :=
      quotedLen_escaped (by decide) _ _
    have hcons : (quoted '"' label).toList ++ ' ' :: rest = '"' :: (escaped '"' label.toList ++ '"' :: ' ' :: rest) := by
      rw [toList_quoted]
      simp
    rw [hcons, labelLen, hlen, toList_quoted, List.length_cons, List.length_append, List.length_singleton]
    omega

private theorem decides_label (label : Option String) (plainAncestors : List String) :
    HeadDecides (containerPrefix label plainAncestors) true := by
  cases label with
  | none =>
    refine ⟨fun _ depth rest => ?_, fun hfalse => nomatch hfalse⟩
    have hempty : (containerPrefix none plainAncestors).spread = [] := rfl
    rw [text_eq, hempty, List.map_nil, List.nil_append, scan_indented depth (by simp), nodeHead_plain (by decide)]
    simp [taken, lettered]
  | some label =>
    refine headDecides_of .container rfl (by simp [String.toList_append]) (by simp [String.toList_append]) fun rest => ?_
    have hcons (text : List Char) : nodeHead (':' :: text) = (.container, 1 + labelLen text) := rfl
    have htext : (":" ++ quoteLabel (shortenLabel label plainAncestors)).toList ++ ' ' :: rest =
        ':' :: ((quoteLabel (shortenLabel label plainAncestors)).toList ++ ' ' :: rest) := by
      rw [String.toList_append]
      rfl
    rw [htext, hcons, labelLen_quoteLabel, String.toList_append, List.length_append]
    rfl

/-! Nodes. -/

/-- The children of a node are read as they were marked, with what separates them, exactly where they are legible. -/
structure ChildrenDecide (children : List Marked) (legible : Bool) : Prop where
  reads : legible = true → ∀ rest,
    scan true (((separated children).flatMap RunText.spread).map Prod.snd ++ rest) =
      (separated children).flatMap RunText.spread ++ scan true rest
  strays : legible = false → ∀ rest,
    ¬(separated children).flatMap RunText.spread <+:
      scan true (((separated children).flatMap RunText.spread).map Prod.snd ++ rest)

private theorem scan_ending (last : Bool) (rest : List Char) :
    scan false (ending last ++ rest) = lettered none (ending last) ++ scan true rest := by
  cases last with
  | true => exact scan_newline rest
  | false =>
    rw [ending, if_neg Bool.false_ne_true, List.cons_append, scan_punctuation (by decide), List.singleton_append, scan_newline]
    rfl

private theorem spread_separated (child : Marked) (rest : List Marked) :
    (separated (child :: rest)).flatMap RunText.spread =
      child.spread ++ (lettered none (ending rest.isEmpty) ++ (separated rest).flatMap RunText.spread) := by
  cases rest with
  | nil => simp [separated, ending, lettered]
  | cons next rest => simp [separated, ending, lettered]

private theorem decides_cons {child : Marked} {others : List Marked} {legible legibles : Bool}
    (h : Decides others.isEmpty child legible) (hothers : ChildrenDecide others legibles) :
    ChildrenDecide (child :: others) (legible && legibles) := by
  have htext (rest : List Char) : ((separated (child :: others)).flatMap RunText.spread).map Prod.snd ++ rest =
      child.text ++ (ending others.isEmpty ++ (((separated others).flatMap RunText.spread).map Prod.snd ++ rest)) := by
    rw [spread_separated, List.map_append, List.map_append, map_snd_lettered, ← text_eq]
    simp only [List.append_assoc]
  constructor
  · intro hlegible rest
    rw [Bool.and_eq_true] at hlegible
    rw [htext, h.1 hlegible.1, scan_ending, hothers.reads hlegible.2, spread_separated]
    simp only [List.append_assoc]
  · intro hlegible rest hwhole
    rw [htext, spread_separated] at hwhole
    cases hchild : legible with
    | false => exact h.2 hchild _ ((List.prefix_append _ _).trans hwhole)
    | true =>
      rw [hchild, Bool.true_and] at hlegible
      rw [h.1 hchild, scan_ending, List.prefix_append_right_inj, List.prefix_append_right_inj] at hwhole
      exact hothers.strays hlegible rest hwhole

private theorem spread_foldl_append (children : List Marked) (out : Marked) :
    (children.foldl (fun out child => out.append child) out).spread = out.spread ++ children.flatMap RunText.spread := by
  induction children generalizing out with
  | nil => simp
  | cons child rest ih =>
    rw [List.foldl_cons, ih, RunText.spread_append, List.flatMap_cons, List.append_assoc]

/-- What is after the head of a node with children, or without. -/
private def inside (depth : Nat) (children : List Marked) : List (Option Kind × Char) :=
  if children.isEmpty then lettered none [')']
  else (none, '\n') :: ((separated children).flatMap RunText.spread ++ (lettered none (spaces depth) ++ lettered none [')']))

private theorem spread_wrap (depth : Nat) (head : Marked) (children : List Marked) :
    (wrap (indentStr depth) head children).spread =
      lettered none (spaces depth) ++ head.spread ++ (none, '(') :: inside depth children := by
  unfold wrap inside
  dsimp only
  split
  · rw [spread_textPlain, RunText.spread_append, spread_plain, toList_indentStr]
    rfl
  · rw [spread_textPlain, spread_foldl_append, spread_textPlain, RunText.spread_append, spread_plain, String.toList_append,
      toList_indentStr]
    simp [lettered]

private theorem scan_inside (depth : Nat) {children : List Marked} {legible : Bool} (h : ChildrenDecide children legible) :
    (legible = true → ∀ rest, scan false ('(' :: ((inside depth children).map Prod.snd ++ rest)) =
      (none, '(') :: inside depth children ++ scan false rest) ∧
    (legible = false → ∀ rest, ¬(none, '(') :: inside depth children <+:
      scan false ('(' :: ((inside depth children).map Prod.snd ++ rest))) := by
  unfold inside
  split
  · rename_i hnil
    rw [List.isEmpty_iff] at hnil
    subst hnil
    refine ⟨fun _ rest => ?_, fun hlegible => absurd List.nil_prefix (h.strays hlegible [])⟩
    rw [map_snd_lettered, scan_punctuation (by decide), List.singleton_append, scan_punctuation (by decide)]
    rfl
  · have hclose (rest : List Char) : scan true (spaces depth ++ (')' :: rest)) =
        lettered none (spaces depth) ++ (none, ')') :: scan false rest := by
      rw [scan_indented depth (by simp), nodeHead_plain (by decide), List.drop_zero, scan_punctuation (by decide)]
      simp [taken, lettered]
    have hopen (rest : List Char) :
        scan false ('(' :: (((none, '\n') :: ((separated children).flatMap RunText.spread ++
          (lettered none (spaces depth) ++ lettered none [')']))).map Prod.snd ++ rest)) =
        (none, '(') :: (none, '\n') :: scan true
          (((separated children).flatMap RunText.spread).map Prod.snd ++ (spaces depth ++ ')' :: rest)) := by
      rw [scan_punctuation (by decide), List.map_cons, List.cons_append, scan_newline]
      simp [map_snd_lettered]
    constructor
    · intro hlegible rest
      rw [hopen, h.reads hlegible, hclose]
      simp [lettered]
    · intro hlegible rest hwhole
      rw [hopen, List.cons_prefix_cons, List.cons_prefix_cons] at hwhole
      exact h.strays hlegible _ ((List.prefix_append _ _).trans hwhole.2.2)

private theorem decides_wrap {last : Bool} {depth : Nat} {head : Marked} {children : List Marked} {legible legibles : Bool}
    (hhead : HeadDecides head legible) (hchildren : ChildrenDecide children legibles) :
    Decides last (wrap (indentStr depth) head children) (legible && legibles) := by
  have htext (rest : List Char) : (wrap (indentStr depth) head children).text ++ rest =
      spaces depth ++ (head.text ++ '(' :: ((inside depth children).map Prod.snd ++ rest)) := by
    rw [text_eq, spread_wrap, List.map_append, List.map_append, map_snd_lettered, ← text_eq]
    simp
  obtain ⟨hreads, hstrays⟩ := scan_inside depth hchildren
  constructor
  · intro hlegible rest
    rw [Bool.and_eq_true] at hlegible
    rw [htext, hhead.reads hlegible.1, hreads hlegible.2, spread_wrap]
    simp
  · intro hlegible rest hwhole
    rw [htext, spread_wrap] at hwhole
    cases hfirst : legible with
    | false => exact hhead.strays hfirst depth _ ((List.prefix_append _ _).trans hwhole)
    | true =>
      rw [hfirst, Bool.true_and] at hlegible
      rw [hhead.reads hfirst, List.prefix_append_right_inj] at hwhole
      exact hstrays hlegible _ hwhole

mutual

theorem decides_node (last : Bool) (depth : Nat) (plainAncestors : List String) :
    (node : Node) → Decides last (renderNode depth plainAncestors node) (legible last node)
  | .container label children => by
    rw [renderNode, legible, ← Bool.true_and (legibleAll children)]
    exact decides_wrap (decides_label label plainAncestors) (decides_nodes (depth + 1) _ children)
  | .action name children => by
    rw [renderNode, legible]
    exact decides_wrap (decides_action name) (decides_nodes (depth + 1) plainAncestors children)
  | .pipeline children => by
    rw [renderNode, legible, ← Bool.true_and (legibleAll children)]
    exact decides_wrap (decides_operator (.inl rfl)) (decides_nodes (depth + 1) plainAncestors children)
  | .splat children => by
    rw [renderNode, legible, ← Bool.true_and (legibleAll children)]
    exact decides_wrap (decides_operator (.inr rfl)) (decides_nodes (depth + 1) plainAncestors children)
  | .value literal => by
    rw [renderNode, legible]
    exact decides_value last depth (readable_renderValue _)
  | .resolve path => by
    rw [renderNode, legible]
    exact decides_path last depth path
  | .resolveCurrent path => by
    rw [renderNode, legible]
    exact decides_path last depth path
  | Node.annotation text => by
    rw [renderNode, legible]
    exact decides_annotation last depth text
termination_by structural node => node

theorem decides_nodes (depth : Nat) (plainAncestors : List String) :
    (nodes : List Node) → ChildrenDecide (renderNodes depth plainAncestors nodes) (legibleAll nodes)
  | [] => by
    rw [renderNodes, legibleAll]
    exact ⟨fun _ rest => rfl, fun hfalse => nomatch hfalse⟩
  | node :: rest => by
    have hempty : (renderNodes depth plainAncestors rest).isEmpty = rest.isEmpty := by cases rest <;> simp [renderNodes]
    rw [renderNodes, legibleAll]
    exact decides_cons (hempty ▸ decides_node rest.isEmpty depth plainAncestors node) (decides_nodes depth plainAncestors rest)
termination_by structural nodes => nodes

end

private theorem spread_prettyMarked (plan : MatchingPlan) : (prettyMarked plan).spread =
    (none, '(') :: (none, '\n') :: ((renderNode 1 [] plan.root).spread ++ [(none, '\n'), (none, ')')]) := by
  rw [prettyMarked, envelope, spread_textPlain, RunText.spread_append, spread_plain]
  simp [lettered]

private theorem spread_tokens (plan : MatchingPlan) : (marked (tokens (pretty plan))).spread =
    (none, '(') :: (none, '\n') :: scan true ((renderNode 1 [] plan.root).text ++ (ending true ++ [')'])) := by
  have htext : (pretty plan).toList = '(' :: '\n' :: ((renderNode 1 [] plan.root).text ++ (ending true ++ [')'])) := by
    rw [pretty, String.toList_ofList, text_eq, spread_prettyMarked]
    simp [text_eq, ending]
  have hstart : scan true ('(' :: '\n' :: ((renderNode 1 [] plan.root).text ++ (ending true ++ [')']))) =
      scan false ('(' :: '\n' :: ((renderNode 1 [] plan.root).text ++ (ending true ++ [')']))) := by
    rw [scan_lineStart]
    simp [unindented, nodeHead_plain, taken, lettered]
  rw [spread_marked, tokens, htext]
  exact hstart.trans (by rw [scan_punctuation (by decide), scan_newline])

theorem reads_back_of_legible {plan : MatchingPlan} (h : legible true plan.root = true) :
    marked (tokens (pretty plan)) = prettyMarked plan := by
  apply RunText.ext_spread
  have hstart : scan true [')'] = scan false [')'] := by
    rw [scan_lineStart]
    simp [unindented, nodeHead_plain, taken, lettered]
  have hclose : scan true [')'] = [(none, ')')] := by
    rw [hstart, scan_punctuation (by decide), scan_nil]
  rw [spread_tokens, spread_prettyMarked, (decides_node true 1 [] plan.root).1 h, scan_ending, hclose]
  rfl

theorem not_reads_back_of_not_legible {plan : MatchingPlan} (h : legible true plan.root = false) :
    marked (tokens (pretty plan)) ≠ prettyMarked plan := by
  intro heq
  have hspread := congrArg RunText.spread heq
  rw [spread_tokens, spread_prettyMarked] at hspread
  refine (decides_node true 1 [] plan.root).2 h [')'] ⟨[(none, '\n'), (none, ')')], ?_⟩
  exact ((List.cons.inj (List.cons.inj hspread).2).2).symm

/-- The pretty form of a plan reads back as it was marked exactly where its names and paths are legible in it. -/
theorem reads_back_iff (plan : MatchingPlan) :
    marked (tokens (pretty plan)) = prettyMarked plan ↔ legible true plan.root = true := by
  refine ⟨fun hreads => ?_, reads_back_of_legible⟩
  by_contra hnot
  exact not_reads_back_of_not_legible (Bool.eq_false_of_not_eq_true hnot) hreads

/-- A plan that looks at a member whose name breaks the line. -/
def brokenLine : MatchingPlan :=
  ⟨grammarVersion,
    .action "match:equality" [.resolve (memberPath "$.response.body" "a\nb"), .value (Literal.string "x")], none⟩

/-- A member's name that breaks the line ends its path in the middle of it. -/
theorem line_break_misread : marked (tokens (pretty brokenLine)) ≠ prettyMarked brokenLine :=
  not_reads_back_of_not_legible (by decide +kernel)

end PactJanus.Plan.ReadBack
