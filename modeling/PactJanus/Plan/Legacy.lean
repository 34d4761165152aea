import PactJanus.Plan.Result

namespace PactJanus.Plan.Legacy

open PactJanus.Data.Json PactJanus.Plan.Model PactJanus.Plan.Value PactJanus.Plan.Result PactJanus.Lib.Text

/-! The actions only the compiler of older contracts emits. -/

/-- The texts of the children from the second on. -/
def allowedNames (children : List Executed) : List String := (children.drop 1).map fun c => plainText (valueOf c)

def onlyEntries (children : List Executed) : NodeResult :=
  match valueAt children 0 with
  | .object members =>
    let extra := (members.map Prod.fst).filter fun k => k ∉ allowedNames children
    if extra.isEmpty then .ok
    else .error ("Unexpected member(s): " ++ String.intercalate ", " extra) (locus children)
  | other => failed ["Expected an object but got ", display other] (locus children)

/-- A type check, with a bound on the size of an array alone. -/
def matchTypeWithBounds (children : List Executed) (min max : Option Nat) : NodeResult :=
  let actual := valueAt children 0
  let expected := valueAt children 1
  if kindOf actual = "absent" ∨ kindOf actual ≠ kindOf expected then
    failed ["Expected ", aKind (kindOf expected), " but got ", display actual] (locus children)
  else
    match actual with
    | .array items =>
      if min.any (items.length < ·) then
        failed ["Expected at least ", countOf (min.getD 0), " but got ", items.length.repr] (locus children)
      else if max.any (· < items.length) then
        failed ["Expected at most ", countOf (max.getD 0), " but got ", items.length.repr] (locus children)
      else .value (.bool true)
    | _ => .value (.bool true)

def mimeParts (value : String) : String × List (String × String) :=
  let parts := (split ';' value).map trim
  let param (p : String) : Option (String × String) :=
    (splitOnce '=' p).map fun (k, v) => (trim k, trimMatches (· == '"') (trim v))
  (parts.headD "", (parts.drop 1).filterMap param)

def headerValuesMatch (expected actual : String) : Bool :=
  if ';' ∈ expected.toList ∨ ';' ∈ actual.toList then
    let (expectedType, expectedParams) := mimeParts expected
    let (actualType, actualParams) := mimeParts actual
    eqIgnoreAsciiCase expectedType actualType &&
      expectedParams.all fun (key, value) =>
        actualParams.any fun (k, v) => eqIgnoreAsciiCase k key && eqIgnoreAsciiCase v value
  else if ',' ∈ expected.toList ∨ ',' ∈ actual.toList then
    (split ',' expected).map trim == (split ',' actual).map trim
  else expected == actual

def headerValue (children : List Executed) : NodeResult :=
  let value := valueAt children 0
  let expected := plainText (valueAt children 1)
  match asText value with
  | none => failed ["Expected a string but got ", display value] (locus children)
  | some actual =>
    if headerValuesMatch expected actual then .value (.bool true)
    else failed ["Expected ", quoted actual, " to equal ", quoted expected] (locus children)

/-- A name in an element's value that is a child's: not an attribute, nor the element's own. -/
def isChildName (name : String) : Bool := !startsWithChar '@' name && !startsWithChar '#' name

def xmlChildren (children : List Executed) : NodeResult :=
  match valueAt children 0 with
  | .absent => .value .absent
  | .object members =>
    .value (.array ((members.filter fun p => isChildName p.1).flatMap fun p =>
      match p.2 with
      | .array items => List.replicate items.length (.string p.1)
      | _ => [.string p.1]))
  | other => failed ["Expected an XML element but got ", display other] (locus children)

def xmlOnlyChildren (children : List Executed) : NodeResult :=
  match valueAt children 0 with
  | .object members =>
    let extra := ((members.map Prod.fst).filter fun n => isChildName n && n ∉ allowedNames children).map
      fun n => "<" ++ n ++ "/>"
    match extra with
    | [] => .ok
    | [one] => .error ("Unexpected child " ++ one) (locus children)
    | _ => .error ("Unexpected children " ++ String.intercalate ", " extra) (locus children)
  | other => failed ["Expected an XML element but got ", display other] (locus children)

def mimePart (children : List Executed) : NodeResult :=
  let kind := plainText (valueAt children 1)
  let name := plainText (valueAt children 2)
  match valueAt children 0 with
  | .object members =>
    let disposition := match members.lookup "headers" with
      | some (.object headers) => (headers.lookup "content-disposition").isSome
      | _ => false
    let namedFile := match members.lookup "filename" with
      | some .absent => false
      | some _ => true
      | none => false
    let found := if disposition && !namedFile then "field" else "file"
    if kind = found then .ok
    else failed ["Expected a MIME ", kind, " ", quoted name, " but was ", found] (locus children)
  | _ => failed ["Expected a MIME part ", quoted name, " but was missing"] (locus children)

def parsesAs (children : List Executed) : NodeResult :=
  let value := valueAt children 0
  let kind := plainText (valueAt children 1)
  match asText value with
  | none => failed ["Expected a string but got ", display value] (locus children)
  | some s =>
    let read : Option (Bool × String) :=
      if kind = "number" ∨ kind = "decimal" then some (isFloatText s, "a number")
      else if kind = "integer" then some ((parseUnsigned s.toList).isSome, "an integer number")
      else if kind = "boolean" then some (s == "true" || s == "false", "a boolean")
      else none
    match read with
    | none => failed [quoted kind, " is not a kind a string can be read as"] (locus children)
    | some (true, _) => .value (.bool true)
    | some (false, described) => failed ["Expected ", quoted s, " to match ", described] (locus children)

def sortParams (params : List (String × String)) : List (String × String) :=
  params.insertionSort fun a b => a.1 < b.1 ∨ (a.1 = b.1 ∧ a.2 ≤ b.2)

/-- A content type's type, subtype and parameters. -/
def bodyTypeParts (value : String) : Option (String × String × List (String × String)) :=
  let (base, params) := mimeParts value
  let params := sortParams (params.map fun (k, v) => (toAsciiLowercase k, v))
  (splitOnce '/' (toAsciiLowercase base)).map fun (main, sub) => (main, sub, params)

def bodyTypesAgree (expected actual : String) : Bool :=
  match bodyTypeParts expected, bodyTypeParts actual with
  | some (eMain, eSub, eParams), some (aMain, aSub, aParams) =>
    if [eMain, eSub, aMain, aSub].any (· == "*") then true
    else
      let same := eMain == aMain && eSub == aSub
      if eParams.isEmpty then
        same || (eMain == aMain && (rsplitOnce '+' aSub).any fun (_, suffix) => suffix == eSub)
      else same && eParams == aParams
  | _, _ => true

def bodyType (children : List Executed) : NodeResult :=
  let value := valueAt children 0
  let expected := plainText (valueAt children 1)
  let mismatch (actual : String) :=
    failed ["Expected a body of ", quoted expected, " but the actual content type was ", quoted actual] (locus children)
  match asText value with
  | none =>
    match value with
    | .absent | .null => .value (.bool true)
    | _ => mismatch (display value)
  | some actual => if bodyTypesAgree expected actual then .value (.bool true) else mismatch actual

/-- A content type's type, subtype, suffix and parameters. -/
def messageTypeParts (value : String) : Option (String × String × Option String × List (String × String)) :=
  let (base, params) := mimeParts value
  let params := sortParams (params.map fun (k, v) => (toAsciiLowercase k, toAsciiLowercase v))
  (splitOnce '/' (toAsciiLowercase base)).map fun (main, sub) =>
    match splitOnce '+' sub with
    | some (sub, suffix) => (main, sub, some suffix, params)
    | none => (main, sub, none, params)

def strictXml (main sub : String) : Bool := (main == "application" || main == "text") && sub == "xml"

def messageTypesEquivalent (expected actual : String) : Bool :=
  match messageTypeParts expected, messageTypeParts actual with
  | some (eMain, eSub, eSuffix, eParams), some (aMain, aSub, aSuffix, aParams) =>
    if strictXml eMain eSub && strictXml aMain aSub then eParams.isEmpty || eParams == aParams
    else if eParams.isEmpty then eMain == aMain && eSub == aSub
    else eMain == aMain && eSub == aSub && eSuffix == aSuffix && eParams == aParams
  | _, _ => eqIgnoreAsciiCase (trim expected) (trim actual)

def messageType (children : List Executed) : NodeResult :=
  let expected := plainText (valueAt children 1)
  let actual := (asText (valueAt children 0)).getD "*/*"
  if messageTypesEquivalent expected actual then .value (.bool true)
  else .error ("Expected message with content type " ++ expected ++ " but was " ++ actual) (locus children)

end PactJanus.Plan.Legacy
