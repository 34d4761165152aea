import PactJanus.Legacy.Comparison
import PactJanus.Lib.SortedMap

namespace PactJanus.Legacy.Parameters

open PactJanus.Data.Json PactJanus.Lib PactJanus.Lib.Lists PactJanus.Shape PactJanus.Plan.Model PactJanus.Plan.Value
  PactJanus.Plan.Resolve PactJanus.Plan.Result PactJanus.Plan.Interpret PactJanus.Plan.Compile PactJanus.Plan.Navigation
  PactJanus.Plan.Documents PactJanus.Plan.Outcome PactJanus.Plan.Good PactJanus.Plan.Flow PactJanus.Plan.Leaves
  PactJanus.Plan.Replacement PactJanus.Data.Equality PactJanus.Legacy.Body PactJanus.Legacy.Covers
  PactJanus.Legacy.Checked PactJanus.Legacy.Misread PactJanus.Legacy.Comparison

/-! What a query and a form compile to under no matching rules, and when it compares them as lists by name. -/

/-- Each name with its values. -/
abbrev NamedValues := OrderedMap String (List String)

def compileValues (base : String) (values : List String) : List Node :=
  .action "expect:count" [.resolve base, .value (Literal.number (UInt64.ofNat values.length))] ::
    values.mapIdx fun index value =>
      .action "match:equality"
        [.resolve (base ++ "[" ++ index.repr ++ "]"), .value (Literal.fromJson (.string value))]

def compileParameters (query : NamedValues) (basePath : String) : List Node :=
  (query.entries.map fun (name, values) =>
      .container (some (basePath ++ "." ++ name)) (compileValues (basePath ++ "." ++ name) values)) ++
    [.action "legacy:only-entries"
      (.resolve basePath :: query.entries.map fun (name, _) => .value (Literal.string name))]

/-- A form document as the compiler of a query takes one. -/
def formParameters (form : RuntimeValue) : NamedValues :=
  let asText (value : RuntimeValue) : String :=
    match value with
    | .string s => s
    | other => text (toJson other)
  let valuesOf (value : RuntimeValue) : List String :=
    match value with
    | .array values => values.map asText
    | value => [asText value]
  match form with
  | .object members => members.foldl (fun map (name, value) => map.insert name (valuesOf value)) OrderedMap.empty
  | _ => OrderedMap.empty

/-- A slot whose parameters a contract names: a request's query, or a part's form body. -/
inductive Slot where
  | query (expected : NamedValues)
  | form (part : Part) (document : RuntimeValue)

namespace Slot

def expected : Slot → NamedValues
  | query expected => expected
  | form _ document => formParameters document

def path : Slot → String
  | query _ => "$." ++ Path.root "request" "query"
  | form part _ => rootPath part

/-- The slot's part of the plan; a body's begins with the check of its content type, if there is one. -/
def node (slot : Slot) (check : Option Node) : Node :=
  match slot with
  | query expected => .container (some "query") (compileParameters expected slot.path)
  | form _ document => .container (some "body") (check.toList ++ compileParameters (formParameters document) slot.path)

/-- Whether the slot's part of the plan matches what was received. -/
def accepts (slot : Slot) (check : Option Node) (env : Env) (captured : CapturedValues) : Bool :=
  (outcome (execute ⟨grammarVersion, slot.node check, none⟩ env (resolve captured))).1 = .matched

end Slot

/-- Received parameters as the transport gives them: an object of lists of texts. -/
def documentOf (parameters : List (String × List String)) : Json :=
  .object (parameters.map fun p => (p.1, .array (p.2.map .string)))

/-- The slot's part of the plan accepts what has the expected names with the expected values, and nothing else,
whenever the check of the content type has nothing against it. -/
def ComparedByName (slot : Slot) : Prop :=
  ∀ (check : Option Node) (env : Env) (captured : CapturedValues) (received : List (String × List String)),
    (received.map Prod.fst).Nodup → CapturedAt captured slot.path (fromJson (documentOf received)) →
      (∀ n ∈ check, clean (run n ⟨env.libraries, resolve captured, env.content, env.actions, [], []⟩)) →
        (slot.accepts check env captured = true ↔ ∀ name, received.lookup name = slot.expected.get name)

/-- No list is longer than a machine word counts. -/
def Sized (parameters : NamedValues) : Prop := ∀ p ∈ parameters.entries, p.2.length < 2 ^ 64

/-! What the nodes of a query ask: the checks of its document. -/

section Nodes

variable {c : Plan.Interpret.Ctx} {path : String}

/-- A walk that begins at a path. -/
def walkFrom (path : String) : BodyCtx := ⟨.absolute path, path, true⟩

private theorem walkFrom_cursor (path : String) : (walkFrom path).cursor = .absolute path := rfl

private theorem readPlain_here (resolver : String → RuntimeValue) : readPlain resolver path [] = resolver path := by
  rw [readPlain, plainPath, List.flatMap_nil, String.ofList_nil, String.append_empty]

private theorem readPlain_member (resolver : String → RuntimeValue) (name : String) :
    (fun steps => readPlain resolver path (.member name :: steps)) = readPlain resolver (path ++ "." ++ name) := by
  funext steps
  rw [readPlain, ofList_plainPath_member]
  rfl

private theorem readPlain_index (resolver : String → RuntimeValue) (i : Nat) :
    (fun steps => readPlain resolver path (.index i :: steps)) = readPlain resolver (path ++ "[" ++ i.repr ++ "]") := by
  funext steps
  rw [readPlain, ofList_plainPath_index]
  rfl

private theorem good_value (value : String) :
    good false (run (.action "match:equality" [.resolve path, .value (Literal.fromJson (.string value))]) c) ↔
      Holds true (.string value) (readPlain c.resolver path) := by
  rw [holds_scalar rfl, readPlain_here]
  exact good_equal (walkFrom_cursor path) (e := .string value) rfl

private theorem allGood_compileValues {values : List String} (hlen : values.length < 2 ^ 64) :
    allGood false c (compileValues path values) ↔
      Holds true (.array (values.map .string)) (readPlain c.resolver path) := by
  rw [compileValues, allGood_cons, holds_array, List.length_map, readPlain_here]
  refine and_congr (good_count (walkFrom_cursor path) hlen) ?_
  constructor
  · intro h i e hi
    rw [List.getElem?_map] at hi
    obtain ⟨value, hvalue, rfl⟩ := Option.map_eq_some_iff.1 hi
    obtain ⟨hlt, rfl⟩ := List.getElem?_eq_some_iff.1 hvalue
    rw [readPlain_index]
    exact (good_value _).1 (h _ (List.mem_mapIdx.2 ⟨i, hlt, rfl⟩))
  · intro h n hn
    obtain ⟨i, hlt, rfl⟩ := List.mem_mapIdx.1 hn
    rw [good_value, ← readPlain_index]
    exact h i (.string values[i]) (by rw [List.getElem?_map, List.getElem?_eq_getElem hlt]; rfl)

private theorem allGood_compileParameters {query : NamedValues} (hsized : Sized query) :
    allGood false c (compileParameters query path) ↔
      Holds true (documentOf query.entries) (readPlain c.resolver path) := by
  have hmembers : (query.entries.map fun p => (p.1, Json.array (p.2.map .string))).map Prod.fst =
      query.entries.map Prod.fst := by
    rw [List.map_map]
    rfl
  have honly : query.entries.map (fun p => Node.value (Literal.string p.1)) =
      (query.entries.map Prod.fst).map fun name => .value (Literal.string name) := by
    rw [List.map_map]
    rfl
  rw [compileParameters, allGood_append, documentOf, holds_object, hmembers, readPlain_here, allGood_one]
  refine and_congr ?_ ?_
  · rw [allGood, List.forall_mem_map, List.forall_mem_map]
    refine forall₂_congr fun p hp => ?_
    rw [good_runContainer, allGood_compileValues (hsized p hp), readPlain_member]
  · simp only [true_imp_iff]
    rw [honly]
    exact good_only (walkFrom_cursor path) _

end Nodes

/-! What the checks of a query read in received parameters. -/

section Reading

variable {received : List (String × List String)} {name : String}

private theorem valuesEqual_string (v : Json) (s : String) : valuesEqual v (.string s) = true ↔ v = .string s := by
  cases v <;> simp [valuesEqual, equalBy]

private theorem get_documentOf :
    Data.Json.get name (documentOf received) = (received.lookup name).map fun vs => .array (vs.map .string) :=
  lookup_map fun vs : List String => Json.array (vs.map .string)

private theorem reading_member (hname : plainlyNamed name = true) (steps : List Step) (hfits : ∀ s ∈ steps, s.fits)
    (htold : steps.all told = true) :
    reading (documentOf received) (.member name :: steps) =
      ofSlot (((received.lookup name).map fun vs => Json.array (vs.map .string)).bind fun v => jsonAt v steps) := by
  have hread : readAs (.member name :: steps) = some (.member name :: steps) :=
    readAs_told (List.forall_mem_cons.2 ⟨trivial, hfits⟩) (by rw [List.all_cons, told, hname, htold]; rfl)
  rw [reading_of_some hread, jsonAt, stepInto, get_documentOf]

/-- The check of one value of a list holds where the list has that value there. -/
private theorem holds_value (hname : plainlyNamed name = true) {vs : List String} (hvs : received.lookup name = some vs)
    {i : Nat} (hi : i < 2 ^ 64) (value : String) :
    Holds true (.string value) (fun steps => reading (documentOf received) (.member name :: .index i :: steps)) ↔
      vs[i]? = some value := by
  rw [holds_scalar rfl, reading_member hname [.index i] (by simpa [Step.fits] using hi) rfl, hvs,
    Check.holds, runtimeEq_ofSlot]
  simp only [Option.map_some, Option.bind_some, jsonAt, stepInto, List.getElem?_map]
  cases vs[i]? with
  | none => simp
  | some v => simp [valuesEqual_string]

/-- The checks of a list hold where its name, which a path reads as it is written, has that list. -/
private theorem holds_values (hname : plainlyNamed name = true) {values : List String} (hlen : values.length < 2 ^ 64) :
    Holds true (.array (values.map .string)) (fun steps => reading (documentOf received) (.member name :: steps)) ↔
      received.lookup name = some values := by
  rw [holds_array, reading_member hname [] (by simp) rfl, List.length_map, Check.holds, beq_iff_eq]
  cases hvs : received.lookup name with
  | none => simp [ofSlot, lengthOpt]
  | some vs =>
    have hcount : lengthOpt (ofSlot (((some vs).map fun vs => Json.array (vs.map .string)).bind fun v => jsonAt v [])) =
        some vs.length := by
      simp [jsonAt, ofSlot, fromJson, fromJsonAll_eq, lengthOpt]
    rw [hcount, Option.some_inj, Option.some_inj]
    constructor
    · rintro ⟨hsame, hall⟩
      apply List.ext_getElem hsame
      intro i hi hi'
      have hvalue := hall i (.string values[i]) (by rw [List.getElem?_map, List.getElem?_eq_getElem hi']; rfl)
      rw [holds_value hname hvs (hi'.trans hlen), List.getElem?_eq_getElem hi] at hvalue
      exact Option.some.inj hvalue
    · rintro rfl
      refine ⟨rfl, fun i e he => ?_⟩
      rw [List.getElem?_map] at he
      obtain ⟨value, hvalue, rfl⟩ := Option.map_eq_some_iff.1 he
      have hi := (List.getElem?_eq_some_iff.1 hvalue).1
      exact (holds_value hname hvs (hi.trans hlen) value).2 hvalue

end Reading

/-- The names that a path reads as they are written: without `.` and `[`. -/
def PlainlyNamed (parameters : NamedValues) : Prop := ∀ p ∈ parameters.entries, plainlyNamed p.1 = true

private theorem only_names {received : List (String × List String)} {names : List String} :
    (Check.only names).holds (fromJson (documentOf received)) = true ↔ ∀ p ∈ received, p.1 ∈ names := by
  simp [documentOf, fromJson, fromJsonMembers_eq, Check.holds]

private theorem reading_here (v : Json) : reading v [] = fromJson v := by
  have hread : readAs [] = some [] := by rw [readAs, plainPath, List.flatMap_nil, readSteps]
  rw [reading_of_some hread]
  rfl

private theorem holds_documentOf {expected : NamedValues} {read : List Step → RuntimeValue} :
    Holds true (documentOf expected.entries) read ↔
      (∀ p ∈ expected.entries, Holds true (.array (p.2.map .string)) fun steps => read (.member p.1 :: steps)) ∧
        (Check.only (expected.entries.map Prod.fst)).holds (read []) = true := by
  rw [documentOf, holds_object, List.forall_mem_map, List.map_map]
  simp only [true_imp_iff]
  rfl

/-- Names that are read as they are written are compared by name. -/
private theorem holds_plainly {expected : NamedValues} (hplain : PlainlyNamed expected) (hsized : Sized expected)
    {received : List (String × List String)} (hd : (received.map Prod.fst).Nodup) :
    Holds true (documentOf expected.entries) (reading (documentOf received)) ↔
      ∀ name, received.lookup name = expected.get name := by
  rw [holds_documentOf, reading_here, only_names]
  constructor
  · rintro ⟨hall, honly⟩ name
    cases hexpected : expected.get name with
    | some values =>
      have hp := mem_of_lookup hexpected
      exact (holds_values (hplain _ hp) (hsized _ hp)).1 (hall _ hp)
    | none =>
      rw [lookup_eq_none_iff_notMem]
      intro hname
      obtain ⟨p, hp, rfl⟩ := List.mem_map.1 hname
      exact lookup_eq_none_iff_notMem.1 hexpected (honly p hp)
  · intro hsame
    refine ⟨fun p hp => (holds_values (hplain p hp) (hsized p hp)).2 ?_, fun p hp => ?_⟩
    · rw [hsame, OrderedMap.get, lookup_of_mem expected.sorted.nodup hp]
    · have hget : expected.get p.1 = some p.2 := (hsame p.1).symm.trans (lookup_of_mem hd hp)
      exact List.mem_map_of_mem (f := Prod.fst) (mem_of_lookup hget)

/-! What is received under a name that is not read as it is written is read by no path. -/

private theorem lookup_filter (keep : String → Bool) (entries : List (String × List String)) (name : String) :
    (entries.filter fun p => keep p.1).lookup name = if keep name then entries.lookup name else none := by
  induction entries with
  | nil => simp
  | cons p rest ih =>
    rw [List.filter_cons, lookup_cons_ite]
    by_cases hp : keep p.1 = true
    · rw [if_pos hp, lookup_cons_ite, ih]
      by_cases hname : name = p.1
      · rw [if_pos hname, if_pos hname, hname, if_pos hp]
      · rw [if_neg hname, if_neg hname]
    · rw [if_neg hp, ih]
      by_cases hname : name = p.1
      · rw [hname, if_neg hp, if_neg hp]
      · rw [if_neg hname]

private theorem plainlyNamed_takeWhile (cs : List Char) :
    plainlyNamed (String.ofList (cs.takeWhile fun c => !endsMember c)) = true := by
  rw [plainlyNamed, String.toList_ofList, List.all_takeWhile]

private theorem reading_filter (received : List (String × List String)) (name : String) (steps : List Step) :
    reading (documentOf (received.filter fun p => plainlyNamed p.1)) (.member name :: steps) =
      reading (documentOf received) (.member name :: steps) := by
  have hread : ∃ (first : String) (rest : Option (List Step)), plainlyNamed first = true ∧
      readAs (.member name :: steps) = rest.map (Step.member first :: ·) := by
    have hplain : plainPath (.member name :: steps) = '.' :: (name.toList ++ plainPath steps) := rfl
    rw [readAs, hplain, readSteps]
    exact ⟨_, _, plainlyNamed_takeWhile _, rfl⟩
  obtain ⟨first, rest, hfirst, hread⟩ := hread
  cases rest with
  | none => rw [reading_of_none hread, reading_of_none hread]
  | some rest =>
    rw [reading_of_some hread, reading_of_some hread, jsonAt, jsonAt, stepInto, stepInto, get_documentOf,
      get_documentOf, lookup_filter, if_pos hfirst]

private theorem holds_filter {expected : NamedValues} {received : List (String × List String)}
    (h : Holds true (documentOf expected.entries) (reading (documentOf received))) :
    Holds true (documentOf expected.entries) (reading (documentOf (received.filter fun p => plainlyNamed p.1))) := by
  rw [holds_documentOf, reading_here, only_names] at h ⊢
  obtain ⟨hall, honly⟩ := h
  refine ⟨fun p hp => ?_, fun p hp => honly p (List.mem_of_mem_filter hp)⟩
  simpa only [reading_filter] using hall p hp

/-! The slot's part of a plan, run on what was received. -/

variable {slot : Slot} {env : Env} {captured : CapturedValues} {received : List (String × List String)}

private theorem accepts_iff (hsized : Sized slot.expected) {check : Option Node}
    (hcaptured : CapturedAt captured slot.path (fromJson (documentOf received)))
    (hcheck : ∀ n ∈ check, clean (run n ⟨env.libraries, resolve captured, env.content, env.actions, [], []⟩)) :
    slot.accepts check env captured = true ↔
      Holds true (documentOf slot.expected.entries) (reading (documentOf received)) := by
  have hread : readPlain (resolve captured) slot.path = reading (documentOf received) := by
    funext steps
    rw [readPlain, resolve_under hcaptured, navigate_eq_walkRead (isDocument_fromJson _)]
    · rfl
    · intro ch hch
      rcases plainPath_head hch with rfl | rfl <;> decide
  rw [Slot.accepts, decide_eq_true_iff, outcome_matched, ← good_false, execute, ← hread]
  cases slot with
  | query expected =>
    rw [Slot.node, good_runContainer]
    exact allGood_compileParameters hsized
  | form part document =>
    have hchecked : allGood false ⟨env.libraries, resolve captured, env.content, env.actions, [], []⟩ check.toList :=
      fun n hn => good_false.2 (hcheck n (Option.mem_toList.1 hn))
    rw [Slot.node, good_runContainer, allGood_append, and_iff_right hchecked]
    exact allGood_compileParameters hsized

private theorem captured_alone (path : String) (v : RuntimeValue) : CapturedAt [(path, v)] path v :=
  ⟨by simp [List.lookup_cons], by simp⟩

private def bareEnv : Env := ⟨⟨fun _ _ => .ok true, fun _ => true, fun _ _ => .ok (), id, id⟩, none, none⟩

/-- Expected parameters are compared as lists by name exactly where every name is read as it is written, which is where
it has neither of the characters that end a name in a path. -/
theorem comparedByName_iff (slot : Slot) (hsized : Sized slot.expected) :
    ComparedByName slot ↔ PlainlyNamed slot.expected := by
  constructor
  · intro h p hp
    have heach (received : List (String × List String)) (hd : (received.map Prod.fst).Nodup) :
        Holds true (documentOf slot.expected.entries) (reading (documentOf received)) ↔
          ∀ name, received.lookup name = slot.expected.get name := by
      have hcaptured := captured_alone slot.path (fromJson (documentOf received))
      exact (accepts_iff hsized hcaptured (by simp)).symm.trans (h none bareEnv _ received hd hcaptured (by simp))
    have hd := slot.expected.sorted.nodup
    have hself := (heach _ hd).2 fun _ => rfl
    have hsame := (heach _ (hd.sublist (List.Sublist.map _ List.filter_sublist))).1 (holds_filter hself) p.1
    rw [lookup_filter, OrderedMap.get, lookup_of_mem hd hp] at hsame
    by_contra hodd
    rw [if_neg hodd] at hsame
    exact absurd hsame (by simp)
  · intro hplain check env captured received hd hcaptured hcheck
    rw [accepts_iff hsized hcaptured hcheck]
    exact holds_plainly hplain hsized hd

private def single (name value : String) : NamedValues := OrderedMap.empty.insert name [value]

/-- The query `page=2` is compared as a list by its name. -/
theorem comparedByName_iff_page :
    ComparedByName (.query (single "page" "2")) ↔ PlainlyNamed (Slot.query (single "page" "2")).expected :=
  comparedByName_iff (.query (single "page" "2")) (List.forall_mem_singleton.2 (by decide))

private def bracketed : List (String × List String) := [("filter[type]", ["new"])]

private def dotted : RuntimeValue := fromJson (documentOf [("user.name", ["ann"])])

/-- The query `filter[type]=new` and the form `user.name=ann` are not accepted where they are what is expected. -/
theorem bracketed_and_dotted_names :
    ((Slot.query (single "filter[type]" "new")).accepts none bareEnv
        [("$.request.query", fromJson (documentOf bracketed))] = false ∧
      ∀ name, bracketed.lookup name = (single "filter[type]" "new").get name) ∧
      (Slot.form .request dotted).accepts none bareEnv [("$.request.body", dotted)] = false ∧
        ∀ name, [("user.name", ["ann"])].lookup name = (formParameters dotted).get name :=
  ⟨⟨by decide +kernel, fun _ => rfl⟩, by decide +kernel, fun _ => rfl⟩

end PactJanus.Legacy.Parameters
