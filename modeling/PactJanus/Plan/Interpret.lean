import PactJanus.Plan.Actions
import PactJanus.Plan.Legacy

namespace PactJanus.Plan.Interpret

open PactJanus.Data.Json PactJanus.Plan.Model PactJanus.Plan.Value PactJanus.Plan.Resolve PactJanus.Plan.Result
  PactJanus.Plan.Actions PactJanus.Plan.Legacy PactJanus.Lib.Text

/-- What a plan is executed against, with the items that are current and where each one is, the last first. -/
structure Ctx where
  libraries : Libraries
  resolver : String → RuntimeValue
  content : Option ContentDetector
  actions : Option ActionApplier
  current : List RuntimeValue
  currentPaths : List (Option String)

def Ctx.push (ctx : Ctx) (value : RuntimeValue) (path : Option String) : Ctx :=
  { ctx with current := value :: ctx.current, currentPaths := path :: ctx.currentPaths }

mutual

/-- A branch that was not taken: no node of it has a result. -/
def skip : Node → Executed
  | .container label children => .container label (skipAll children) none
  | .action name children => .action name (skipAll children) none
  | .value literal => .value literal none
  | .resolve path => .resolve path none
  | .resolveCurrent path => .resolveCurrent path none none
  | .pipeline children => .pipeline (skipAll children) none
  | .splat children => .splat (skipAll children) none
  | Node.annotation text => Executed.annotation text none
termination_by structural node => node

def skipAll : List Node → List Executed
  | [] => []
  | node :: rest => skip node :: skipAll rest
termination_by structural nodes => nodes

end

/-- What `flow:for-each` goes through: the elements of an array, or the entries of an object. -/
def iterationItems : RuntimeValue → List RuntimeValue
  | .array items => items
  | .object members => members.map fun p => .entry p.1 p.2
  | _ => []

/-- The absolute path of a suffix of an item: an entry's key and value are at the entry's own path. -/
def absolutePath (item : String) (base : RuntimeValue) (suffix : List Char) : String :=
  match base with
  | .entry .. =>
    match suffix with
    | '.' :: 'v' :: 'a' :: 'l' :: 'u' :: 'e' :: rest => item ++ String.ofList rest
    | '.' :: 'k' :: 'e' :: 'y' :: rest => item ++ String.ofList rest
    | _ => item ++ String.ofList suffix
  | _ => item ++ String.ofList suffix

/-- Where an item is, given where what it was drawn from is. -/
def itemPath (source : String) (index : Nat) : RuntimeValue → String
  | .entry key _ => memberPath source key
  | _ => source ++ "[" ++ index.repr ++ "]"

/-- Each item with where it is. -/
def itemPaths (source : Option String) (items : List RuntimeValue) : List (RuntimeValue × Option String) :=
  items.mapIdx fun index item => (item, source.map fun s => itemPath s index item)

def withoutSigil (path : String) : List Char :=
  match path.toList with
  | '~' :: '>' :: rest => rest
  | cs => cs

def malformed (name : String) (children : List Node) (message : String) : Executed :=
  .action name (skipAll children) (some (.error message none))

/-- Why an action cannot be run as written: it has fewer children than it takes. -/
def tooFew (name : String) (count : Nat) : Option String :=
  match leastChildren name with
  | some least =>
    if count < least then
      some ("'" ++ name ++ "' takes at least " ++ least.repr ++ " child node(s) and this one has " ++ count.repr)
    else none
  | none => none

def matchKind (children : List Executed) (holds : RuntimeValue → Bool) (kindName : String) : NodeResult :=
  let value := valueAt children 0
  if holds value then .value (.bool true)
  else failed ["Expected ", aKind kindName, " but got ", display value] (locus children)

def isString : RuntimeValue → Bool
  | .string _ => true
  | _ => false

def isBool : RuntimeValue → Bool
  | .bool _ => true
  | _ => false

def isNullValue : RuntimeValue → Bool
  | .null => true
  | _ => false

def isAbsent : RuntimeValue → Bool
  | .absent => true
  | _ => false

def isNumber : RuntimeValue → Bool
  | .number _ => true
  | _ => false

def isInteger : RuntimeValue → Bool
  | .number n => isWrittenInteger n
  | _ => false

def isDecimalNumber : RuntimeValue → Bool
  | .number n => !isWrittenInteger n
  | _ => false

def isObject : RuntimeValue → Bool
  | .object _ => true
  | _ => false

def isArray : RuntimeValue → Bool
  | .array _ => true
  | _ => false

/-- A check that has nothing to say of a value but whether it is of a form. -/
def expectForm (children : List Executed) (holds : RuntimeValue → Bool) (message : String) : NodeResult :=
  let value := valueAt children 0
  if holds value then .ok else failed [message, display value] (locus children)

def expectCount (children : List Executed) : NodeResult :=
  let value := valueAt children 0
  let expected := valueAsU64 (valueAt children 1)
  match lengthOpt value with
  | some len =>
    if expected = some len then .ok
    else failed ["Expected exactly ", countOf (expected.getD 0), " but got ", len.repr] (locus children)
  | none => failed ["Expected a countable value but got ", display value] (locus children)

def expectSize (children : List Executed) : NodeResult :=
  let value := valueAt children 0
  let min := (valueAsU64 (valueAt children 1)).getD 0
  let max := valueAsU64 (valueAt children 2)
  match lengthOpt value with
  | some len =>
    if min ≤ len ∧ max.all (len ≤ ·) = true then .ok
    else
      failed ["Expected at least ", countOf min,
        (match max with
          | some m => " and at most " ++ m.repr
          | none => ""), " but got ", len.repr] (locus children)
  | none => failed ["Expected a countable value but got ", display value] (locus children)

/-- The first byte at which two sequences of octets differ. -/
def firstDifference : List UInt8 → List UInt8 → Nat
  | a :: as, b :: bs => if a = b then firstDifference as bs + 1 else 0
  | _, _ => 0

def matchEquality (children : List Executed) : NodeResult :=
  let actual := valueAt children 0
  let expected := valueAt children 1
  if runtimeEq actual expected then .value (.bool true)
  else
    let differing := match actual, expected with
      | .bytes a, .bytes e => [", differing from byte ", (firstDifference a e).repr]
      | _, _ => []
    failed (["Expected ", display actual, " to equal ", display expected] ++ differing) (locus children)

def matchType (children : List Executed) : NodeResult :=
  let actual := valueAt children 0
  let expected := valueAt children 1
  if isAbsent actual = false ∧ kindOf actual = kindOf expected then .value (.bool true)
  else failed ["Expected ", aKind (kindOf expected), " but got ", display actual] (locus children)

def matchAnyOf (children : List Executed) : NodeResult :=
  let value := valueAt children 0
  let options := (children.drop 1).map valueOf
  if options.any (runtimeEq · value) then .value (.bool true)
  else
    failed ["Expected ", display value, " to be one of ", String.intercalate ", " (options.map display)] (locus children)

def matchRegex (libraries : Libraries) (children : List Executed) : NodeResult :=
  let value := valueAt children 0
  let pattern := plainText (valueAt children 1)
  match asMatchableText value with
  | none => failed ["Expected a string but got ", display value] (locus children)
  | some s =>
    match libraries.regexMatch pattern s with
    | .error err => failed ["Invalid regex ", quoted pattern, ": ", err] (locus children)
    | .ok true => .value (.bool true)
    | .ok false => failed ["Expected ", quoted s, " to match ", quoted pattern] (locus children)

def matchTemporal (libraries : Libraries) (children : List Executed) (defaultFormat kindName : String) : NodeResult :=
  let value := valueAt children 0
  let format := (children[1]?.map fun c => plainText (valueOf c)).getD defaultFormat
  match asText value with
  | none => failed ["Expected a string but got ", display value] (locus children)
  | some s =>
    match libraries.validateDatetime s format with
    | .ok () => .value (.bool true)
    | .error err =>
      failed [quoted s, " is not a ", kindName, " in format ", quoted format, ": ", err] (locus children)

def matchInclude (children : List Executed) : NodeResult :=
  let value := valueAt children 0
  let substring := plainText (valueAt children 1)
  match asText value with
  | some s =>
    if containsText substring s then .value (.bool true)
    else failed ["Expected ", quoted s, " to include ", quoted substring] (locus children)
  | none => failed ["Expected a string but got ", display value] (locus children)

/-- Whether a content type is one a media type names: parameters and case aside, `*` naming every one. -/
def mediaTypeMatches (pattern contentType : String) : Bool :=
  let essence (s : String) := toAsciiLowercase (trim ((split ';' s).headD ""))
  match splitOnce '/' (essence pattern), splitOnce '/' (essence contentType) with
  | some (patternType, patternSubtype), some (mainType, subtype) =>
    (patternType == "*" || patternType == mainType) && (patternSubtype == "*" || patternSubtype == subtype)
  | _, _ => false

def matchContentType (content : Option ContentDetector) (children : List Executed) : NodeResult :=
  let value := valueAt children 0
  let expected := plainText (valueAt children 1)
  match content with
  | none => .error "no content component is loaded to detect content type" (locus children)
  | some detect =>
    match detect value (locus children) with
    | some detected =>
      if mediaTypeMatches expected detected then .value (.bool true)
      else failed ["Expected content type ", quoted expected, " but detected ", quoted detected] (locus children)
    | none => failed ["Could not detect a content type for ", display value] (locus children)

def matchSemver (libraries : Libraries) (children : List Executed) : NodeResult :=
  let value := valueAt children 0
  match asText value with
  | some s =>
    if libraries.semver s then .value (.bool true)
    else failed ["Expected ", quoted s, " to be a semantic version"] (locus children)
  | none => failed ["Expected a string but got ", display value] (locus children)

/-- The result of the last child, as an action that passes it on gives it. -/
def lastResult (children : List Executed) : NodeResult :=
  match children.getLast? with
  | some c => (resultOf c).getD .ok
  | none => .ok

def flowAnd (children : List Executed) : NodeResult :=
  if children.isEmpty then .ok
  else if children.any childFailed then .value (.bool false)
  else .ok

private def textResult (s : String) : NodeResult := .value (.string s)

/-- The result of a core action whose children have all been executed. -/
def dispatch (name : String) (children : List Executed) (ctx : Ctx) : NodeResult :=
  match name with
  | "flow:and" => flowAnd children
  | "flow:error" => .error (plainText (valueAt children 0)) none
  | "flow:apply" => lastResult children
  | "flow:tee" => lastResult children
  | "value:join" => textResult (String.join (children.map fun c => plainText (valueOf c)))
  | "value:join-with" => textResult (String.intercalate (plainText (valueAt children 0)) (allowedNames children))
  | "value:length" => .value (.number (.posInt (UInt64.ofNat (lengthOf (valueAt children 0)))))
  | "value:lower-case" => textResult (ctx.libraries.toLowercase (plainText (valueAt children 0)))
  | "value:upper-case" => textResult (ctx.libraries.toUppercase (plainText (valueAt children 0)))
  | "value:to-string" => textResult (plainText (valueAt children 0))
  | "check:exists" => .value (.bool (!isAbsent (valueAt children 0)))
  | "check:null" => .value (.bool (isNullValue (valueAt children 0)))
  | "check:equals" => .value (.bool (runtimeEq (valueAt children 0) (valueAt children 1)))
  | "expect:absent" => expectForm children isAbsent "Expected no value but got "
  | "expect:object" => expectForm children isObject "Expected an object but got "
  | "expect:array" => expectForm children isArray "Expected an array but got "
  | "expect:not-empty" => expectForm children (fun v => !isEmpty v) "Expected a non-empty value but got "
  | "expect:empty" => expectForm children isEmpty "Expected an empty value but got "
  | "expect:count" => expectCount children
  | "expect:entries" => expectCount children
  | "expect:size" => expectSize children
  | "match:any" =>
    if isAbsent (valueAt children 0) then .error "Expected a value but it was absent" (locus children)
    else .value (.bool true)
  | "match:equality" => matchEquality children
  | "match:type" => matchType children
  | "match:string" => matchKind children isString "string"
  | "match:boolean" => matchKind children isBool "boolean"
  | "match:null" => matchKind children isNullValue "null"
  | "match:number" => matchKind children isNumber "number"
  | "match:integer" => matchKind children isInteger "integer"
  | "match:decimal" => matchKind children isDecimalNumber "decimal"
  | "match:regex" => matchRegex ctx.libraries children
  | "match:datetime" => matchTemporal ctx.libraries children "yyyy-MM-dd'T'HH:mm:ssXXX" "datetime"
  | "match:date" => matchTemporal ctx.libraries children "yyyy-MM-dd" "date"
  | "match:time" => matchTemporal ctx.libraries children "HH:mm:ss" "time"
  | "match:include" => matchInclude children
  | "match:content-type" => matchContentType ctx.content children
  | "match:semver" => matchSemver ctx.libraries children
  | "match:any-of" => matchAnyOf children
  | "legacy:only-entries" => onlyEntries children
  | "legacy:min-type" => matchTypeWithBounds children (some ((valueAsU64 (valueAt children 2)).getD 0)) none
  | "legacy:max-type" => matchTypeWithBounds children none (some ((valueAsU64 (valueAt children 2)).getD 0))
  | "legacy:min-max-type" =>
    matchTypeWithBounds children (some ((valueAsU64 (valueAt children 2)).getD 0))
      (some ((valueAsU64 (valueAt children 3)).getD 0))
  | "legacy:header-value" => headerValue children
  | "legacy:xml-children" => xmlChildren children
  | "legacy:xml-only-children" => xmlOnlyChildren children
  | "legacy:mime-part" => mimePart children
  | "legacy:parses-as" => parsesAs children
  | "legacy:body-type" => bodyType children
  | "legacy:message-type" => messageType children
  | _ => failed ["unknown or unavailable action ", quoted name] none

/-- A component's action: its children's values handed to whoever contributes it. -/
def applyComponent (name : String) (children : List Executed) (actions : Option ActionApplier) : NodeResult :=
  match actions.bind fun apply => apply name (children.map valueOf) (locus children) with
  | some (.error message none) => .error message (locus children)
  | some result => result
  | none => failed ["no component in scope contributes the action ", quoted name] (locus children)

/-- The first item not yet claimed at which an attempt succeeds, or else the last attempt made. -/
def firstFit (attempt : RuntimeValue × Option String → Executed) :
    List (RuntimeValue × Option String) → List Bool → Nat → Option (Nat × Executed) → Option (Nat × Executed)
  | item :: items, used :: rest, index, matched =>
    if used then firstFit attempt items rest (index + 1) matched
    else if childFailed (attempt item) then firstFit attempt items rest (index + 1) (some (index, attempt item))
    else some (index, attempt item)
  | _, _, _, matched => matched

/-- The result of `match:contains`. -/
def containsResult (anyFailed : Bool) : NodeResult :=
  if anyFailed then .error "not every entry found a distinct matching element" none else .value (.bool true)

/-- The first element a variant's template is satisfied by, kept as it was tried. -/
def firstMatching (attempt : RuntimeValue × Option String → Executed) :
    List (RuntimeValue × Option String) → Option Executed
  | [] => none
  | item :: items => if childFailed (attempt item) then firstMatching attempt items else some (attempt item)

/-- The result of `legacy:array-contains`, with the children that name the variant. -/
def arrayContainsResult (source : Executed) (described : List Executed) (found : Bool) : NodeResult :=
  if isArray (valueOf source) then
    if found then .value (.bool true)
    else
      match described with
      | index :: element :: _ =>
        failed ["Variant at index ", display (valueOf index), " (", display (valueOf element),
          ") was not found in the actual list"] (locus [source])
      | _ => failed ["No element of ", display (valueOf source), " matched the variant"] (locus [source])
  else failed ["Expected an array but got ", display (valueOf source)] (locus [source])

mutual

def run : Node → Ctx → Executed
  | .container label children, ctx =>
    let executed := runAll children ctx
    .container label executed (some (.value (.bool (!executed.any childFailed))))
  | .value literal, _ => .value literal (some (.value (fromLiteral literal)))
  | .resolve path, ctx => .resolve path (some (.value (ctx.resolver path)))
  | .resolveCurrent path, ctx =>
    let base := ctx.current.headD .absent
    let suffix := withoutSigil path
    .resolveCurrent path ((ctx.currentPaths.headD none).map fun item => absolutePath item base suffix)
      (some (.value (navigate base suffix)))
  | Node.annotation text, _ => Executed.annotation text none
  | .pipeline children, ctx =>
    let (executed, last) := runPipeline children ctx .ok
    .pipeline executed (some last)
  | .splat children, ctx =>
    let executed := runAll children ctx
    .splat executed (executed.head?.bind resultOf)
  | .action name children, ctx =>
    match tooFew name children.length with
    | some message => malformed name children message
    | none =>
      match name with
      | "flow:if" => runIf children ctx
      | "flow:or" =>
        let (executed, success) := runOr children ctx false
        .action "flow:or" executed (some (.value (.bool success)))
      | "flow:for-each" => runForEach children ctx
      | "match:contains" => runContains children ctx
      | "legacy:array-contains" => runArrayContains children ctx
      | _ =>
        let executed := runAll children ctx
        .action name executed
          (some (if isComponentAction name then applyComponent name executed ctx.actions else dispatch name executed ctx))
termination_by structural node => node

def runAll : List Node → Ctx → List Executed
  | [], _ => []
  | node :: rest, ctx => run node ctx :: runAll rest ctx
termination_by structural nodes => nodes

/-- Each child applied to the next: a value it yields is current for those after it. -/
def runPipeline : List Node → Ctx → NodeResult → List Executed × NodeResult
  | [], _, last => ([], last)
  | node :: rest, ctx, _ =>
    let e := run node ctx
    let last := (resultOf e).getD .ok
    let ctx' := match last with
      | .value v => ctx.push v (pathOf e)
      | _ => ctx
    let (executed, result) := runPipeline rest ctx' last
    (e :: executed, result)
termination_by structural nodes => nodes

def runIf : List Node → Ctx → Executed
  | [cond, branch], ctx =>
    let c := run cond ctx
    if resultTruthy c then
      let b := run branch ctx
      .action "flow:if" [c, b] (some (.value (.bool (!childFailed b))))
    else .action "flow:if" [c, skip branch] (some .ok)
  | cond :: branch :: otherwise :: _, ctx =>
    let c := run cond ctx
    if resultTruthy c then
      let b := run branch ctx
      .action "flow:if" [c, b, skip otherwise] (some (.value (.bool (!childFailed b))))
    else
      let o := run otherwise ctx
      .action "flow:if" [c, skip branch, o] (some (.value (.bool (!childFailed o))))
  | children, _ => malformed "flow:if" children "" -- not reached: its children are counted first
termination_by structural nodes => nodes

def runOr : List Node → Ctx → Bool → List Executed × Bool
  | [], _, success => ([], success)
  | node :: rest, ctx, success =>
    if success then
      let (executed, found) := runOr rest ctx true
      (skip node :: executed, found)
    else
      let e := run node ctx
      let (executed, found) := runOr rest ctx (resultTruthy e)
      (e :: executed, found)
termination_by structural nodes => nodes

def runForEach : List Node → Ctx → Executed
  | .splat [] :: rest, _ =>
    malformed "flow:for-each" (.splat [] :: rest)
      "'flow:for-each' was given a splat with nothing in it to iterate over"
  | .splat (source :: _) :: template :: _, ctx =>
    let inner := run source ctx
    let items := iterationItems (valueOf inner)
    let executed := (itemPaths (pathOf inner) items).map fun p => run template (ctx.push p.1 p.2)
    .action "flow:for-each" (.splat [inner] (some (.value (.array items))) :: executed)
      (some (.value (.bool (!executed.any childFailed))))
  | source :: template :: _, ctx =>
    let inner := run source ctx
    let executed := (itemPaths (pathOf inner) (iterationItems (valueOf inner))).map
      fun p => run template (ctx.push p.1 p.2)
    .action "flow:for-each" (inner :: executed) (some (.value (.bool (!executed.any childFailed))))
  | children, _ => malformed "flow:for-each" children "" -- not reached: its children are counted first
termination_by structural nodes => nodes

def runContains : List Node → Ctx → Executed
  | source :: entries, ctx =>
    let inner := run source ctx
    let items := match valueOf inner with
      | .array items => itemPaths (pathOf inner) items
      | _ => []
    let (executed, anyFailed) := runEntries entries ctx items (items.map fun _ => false)
    .action "match:contains" (inner :: executed) (some (containsResult anyFailed))
  | children, _ => malformed "match:contains" children "" -- not reached: its children are counted first
termination_by structural nodes => nodes

/-- Each entry claims the first item not yet claimed that it is satisfied by. -/
def runEntries : List Node → Ctx → List (RuntimeValue × Option String) → List Bool → List Executed × Bool
  | [], _, _, _ => ([], false)
  | entry :: rest, ctx, items, used =>
    match firstFit (fun p => run entry (ctx.push p.1 p.2)) items used 0 none with
    | some (index, attempt) =>
      if childFailed attempt then
        let (executed, _) := runEntries rest ctx items used
        (attempt :: executed, true)
      else
        let (executed, anyFailed) := runEntries rest ctx items (used.set index true)
        (attempt :: executed, anyFailed)
    | none =>
      let (executed, _) := runEntries rest ctx items used
      (skip entry :: executed, true)
termination_by structural nodes => nodes

def runArrayContains : List Node → Ctx → Executed
  | source :: template :: rest, ctx =>
    let inner := run source ctx
    let described := runAll rest ctx
    let matched := match valueOf inner with
      | .array items => firstMatching (fun p => run template (ctx.push p.1 p.2)) (itemPaths (pathOf inner) items)
      | _ => none
    .action "legacy:array-contains" (inner :: matched.getD (skip template) :: described)
      (some (arrayContainsResult inner described matched.isSome))
  | children, _ => malformed "legacy:array-contains" children "" -- not reached: its children are counted first
termination_by structural nodes => nodes

end

end PactJanus.Plan.Interpret
