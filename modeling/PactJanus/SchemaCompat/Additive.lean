import PactJanus.SchemaCompat.Reports

namespace PactJanus.SchemaCompat.Additive

open PactJanus.Data.Json PactJanus.Lib.Fueled PactJanus.SchemaCompat.Checker PactJanus.SchemaCompat.Validity
  PactJanus.SchemaCompat.Reports

/-! What a clean diff promises of the instances of the two documents. -/

variable (V : Vocabulary) (base head : Json)

/-- A subschema of the base and its counterpart in the head, with a part of the instance they both apply to. -/
inductive Applies (v : Json) : Json → Json → Json → Prop
  | document : Applies v base head v
  | part {b h w b' h' w' : Json} : Applies v b h w →
      Part V base head b h w (fun c r => Settles (verdict V base) (c, w) r) b' h' w' → Applies v b' h' w'

/-- The alternatives that the head appends to a combinator leave its verdict as it was: an appended conjunct accepts
the value, an appended disjunct rejects it, and a combinator that is new accepts it. -/
def Neutral (key : String) : Option (List Json) → Option (List Json) → Json → Prop
  | some bs, some hs, w => ∀ e ∈ hs.drop bs.length, Settles (verdict V head) (e, w) (key == "allOf")
  | none, some hs, w => ∃ rs, List.Forall₂ (fun e r => Settles (verdict V head) (e, w) r) hs rs ∧ counted key rs = true
  | _, none, _ => True

/-- What the head adds at a place does not bear on the part of the instance there. -/
structure Undisturbed (b h w : Json) : Prop where
  members : ∀ p ∈ members w, propertyOf b p.1 = none → propertyOf h p.1 = none
  elements : ∀ i < (elements w).length, prefixOf b i = none → prefixOf h i = none
  references : (target V head h).isSome = true → (target V base b).isSome = true
  alternatives : ∀ key ∈ COMBINATORS, Neutral V head key (arrayAt key b) (arrayAt key h) w

variable {V base head} {debug : List String → String} {b h w b' h' w' : Json} {held : Json → Bool → Prop}

private theorem isSome_or {a a' c c' : Option Json} (ha : a.isSome = a'.isSome) (hc : c.isSome = c'.isSome) :
    (a.or c).isSome = (a'.or c').isSome := by
  rw [Option.isSome_or, Option.isSome_or, ha, hc]

private theorem isSome_congr {a c : Option Json} (hac : ∀ x, a = some x → ∃ y, c = some y) (hca : a = none → c = none) :
    a.isSome = c.isSome := by
  cases ha : a with
  | none => rw [hca ha]
  | some x =>
    obtain ⟨y, hy⟩ := hac x ha
    rw [hy, Option.isSome_some, Option.isSome_some]

private theorem single_isSome (htwin : Twin debug b h) {key : String} (hkey : key ∈ SINGLE_SUBSCHEMA) :
    (get key b).isSome = (get key h).isSome := by
  obtain ⟨hb, hh⟩ | ⟨s, s', hb, hh, -⟩ := htwin.clean.single hkey
  · rw [hb, hh]
  · rw [hb, hh, Option.isSome_some, Option.isSome_some]

private theorem twin_single (htwin : Twin debug b h) {key : String} (hkey : key ∈ SINGLE_SUBSCHEMA)
    (hb : get key b = some b') (hh : get key h = some h') : Twin debug b' h' := by
  obtain ⟨hnone, -⟩ | ⟨s, s', hs, hs', hclean⟩ := htwin.clean.single hkey
  · rw [hnone] at hb
    cases hb
  · obtain rfl := Option.some.inj (hs.symm.trans hb)
    obtain rfl := Option.some.inj (hs'.symm.trans hh)
    exact ⟨hclean, htwin.base.single hkey hb, htwin.head.single hkey hh⟩

private theorem twin_property (htwin : Twin debug b h) {name : String} (hb : propertyOf b name = some b') :
    ∃ h', propertyOf h name = some h' ∧ Twin debug b' h' := by
  have hkey : "properties" ∈ SUBSCHEMA_MAPS := by decide
  obtain ⟨h', hh, hclean⟩ := htwin.clean.mapped hkey hb
  exact ⟨h', hh, hclean, htwin.base.mapped hkey hb, htwin.head.mapped hkey hh⟩

private theorem twin_listed (htwin : Twin debug b h) {key : String} (hkey : key ∈ SUBSCHEMA_ARRAYS) {bs hs : List Json}
    {i : Nat} (hbs : arrayAt key b = some bs) (hhs : arrayAt key h = some hs) (hb : bs[i]? = some b')
    (hh : hs[i]? = some h') : Twin debug b' h' := by
  obtain ⟨hs', hhs', -, hclean⟩ := htwin.clean.listed hkey hbs
  obtain rfl := Option.some.inj (hhs'.symm.trans hhs)
  exact ⟨hclean i b' h' hb hh, htwin.base.listed hkey hbs hb, htwin.head.listed hkey hhs hh⟩

private theorem twin_prefixItem (htwin : Twin debug b h) {i : Nat} (hb : prefixOf b i = some b') :
    ∃ h', prefixOf h i = some h' ∧ Twin debug b' h' := by
  have hkey : "prefixItems" ∈ SUBSCHEMA_ARRAYS := by decide
  cases hbs : arrayAt "prefixItems" b with
  | none => simp [prefixOf, hbs] at hb
  | some bs =>
    rw [prefixOf, hbs, Option.getD_some] at hb
    obtain ⟨hs, hhs, hlength, hclean⟩ := htwin.clean.listed hkey hbs
    have hbound : i < hs.length := (List.getElem?_eq_some_iff.1 hb).1.trans_le hlength
    have hi : hs[i]? = some hs[i] := List.getElem?_eq_getElem hbound
    refine ⟨hs[i], ?_, twin_listed htwin hkey hbs hhs hb hi⟩
    rw [prefixOf, hhs, Option.getD_some, hi]

private theorem twin_or {a a' c c' : Option Json} (ha : ∀ x, a = some x → ∃ y, a' = some y ∧ Twin debug x y)
    (hnone : a = none → a' = none) (hc : ∀ x y, c = some x → c' = some y → Twin debug x y)
    (hb : a.or c = some b') (hh : a'.or c' = some h') : Twin debug b' h' := by
  cases hx : a with
  | none =>
    rw [hx, Option.none_or] at hb
    rw [hnone hx, Option.none_or] at hh
    exact hc b' h' hb hh
  | some x =>
    obtain ⟨y, hy, htwin⟩ := ha x hx
    rw [hx, Option.some_or] at hb
    rw [hy, Option.some_or] at hh
    obtain rfl := Option.some.inj hb
    obtain rfl := Option.some.inj hh
    exact htwin

private theorem twin_target (hroot : Twin debug base head) (htwin : Twin debug b h) (hb : target V base b = some b') :
    ∃ h', target V head h = some h' ∧ Twin debug b' h' := by
  obtain ⟨steps, hsteps, hfollow⟩ := Option.bind_eq_some_iff.1 hb
  obtain ⟨h', hh, htwin'⟩ := hroot.follow hfollow
  refine ⟨h', ?_, htwin'⟩
  rw [target, ← htwin.reference, hsteps, Option.bind_some, hh]

/-- The counterparts of twins are twins, where nothing added is in the way. -/
private theorem twin_part (hroot : Twin debug base head) (htwin : Twin debug b h) (hw : Undisturbed V base head b h w)
    (hpart : Part V base head b h w held b' h' w') : Twin debug b' h' := by
  cases hpart with
  | reference hb hh =>
    obtain ⟨h'', hh', htwin'⟩ := twin_target hroot htwin hb
    obtain rfl := Option.some.inj (hh'.symm.trans hh)
    exact htwin'
  | member hp hb hh =>
    exact twin_or (fun x hx => twin_property htwin hx) (hw.members _ hp)
      (fun x y hx hy => twin_single htwin (by decide) hx hy) hb hh
  | name _ hb hh => exact twin_single htwin (by decide) hb hh
  | element hi hb hh =>
    exact twin_or (fun x hx => twin_prefixItem htwin hx) (hw.elements _ (List.getElem?_eq_some_iff.1 hi).1)
      (fun x y hx hy => twin_single htwin (by decide) hx hy) hb hh
  | inPlace hkey hb hh =>
    have hsub : ["if", "not"] ⊆ SINGLE_SUBSCHEMA := by decide
    exact twin_single htwin (hsub hkey) hb hh
  | consequence _ _ hb hh => exact twin_single htwin (branch_single _) hb hh
  | alternative hkey hbs hhs hb hh =>
    have hsub : COMBINATORS ⊆ SUBSCHEMA_ARRAYS := by decide
    exact twin_listed htwin (hsub hkey) hbs hhs hb hh

/-- Twins hold the same keywords for an instance that nothing added bears on. -/
private theorem aligned (hroot : Twin debug base head) (htwin : Twin debug b h) (hw : Undisturbed V base head b h w) :
    Aligned V base head b h w where
  asserted := htwin.asserted w
  reference := congrArg Option.isSome htwin.reference
  target := by
    refine isSome_congr (fun x hx => (twin_target hroot htwin hx).imp fun y hy => hy.1) fun hnone => ?_
    by_contra hne
    have hsome := hw.references (Option.isSome_iff_ne_none.2 hne)
    rw [hnone] at hsome
    cases hsome
  members p hp := isSome_or (isSome_congr (fun x hx => (twin_property htwin hx).imp fun y hy => hy.1) (hw.members p hp))
    (single_isSome htwin (by decide))
  elements i hi := isSome_or (isSome_congr (fun x hx => (twin_prefixItem htwin hx).imp fun y hy => hy.1) (hw.elements i hi))
    (single_isSome htwin (by decide))
  single _ hkey := single_isSome htwin hkey

private theorem counted_append {key : String} (hkey : key ∈ COMBINATORS) (rs : List Bool) (k : Nat) :
    counted key (rs ++ List.replicate k (key == "allOf")) = counted key rs := by
  simp only [COMBINATORS, List.mem_cons, List.not_mem_nil, or_false] at hkey
  rcases hkey with rfl | rfl | rfl <;> simp [counted, List.all_replicate, List.any_replicate, List.count_replicate]

private theorem forall₂_below {t t' : Json × Json → Option Bool} {xs ys : List Json} (hlength : xs.length = ys.length)
    (h : ∀ (i : Nat) (x y : Json), xs[i]? = some x → ys[i]? = some y → Below (t (x, w)) (t' (y, w))) :
    List.Forall₂ Below (xs.map fun x => t (x, w)) (ys.map fun y => t' (y, w)) := by
  rw [List.forall₂_map_left_iff, List.forall₂_map_right_iff, List.forall₂_iff_get]
  refine ⟨hlength, fun i hi hi' => ?_⟩
  exact h i _ _ (List.getElem?_eq_getElem hi) (List.getElem?_eq_getElem hi')

private theorem getElem?_of_take {l : List Json} {i n : Nat} {x : Json} (h : (l.take n)[i]? = some x) : l[i]? = some x := by
  rw [List.getElem?_take] at h
  split at h
  · exact h
  · cases h

/-- Settled verdicts are the only ones a sound table can hold. -/
private theorem eq_of_settled {t : Json × Json → Option Bool} (ht : ∀ y r, t y = some r → Settles (verdict V head) y r)
    {es : List Json} {rs ss : List Bool} (hrs : List.Forall₂ (fun e r => Settles (verdict V head) (e, w) r) es rs)
    (hss : es.map (fun e => t (e, w)) = ss.map some) : ss = rs := by
  induction hrs generalizing ss with
  | nil => exact List.map_eq_nil_iff.1 hss.symm
  | cons he _ ih =>
    obtain ⟨s, rest, rfl, hs, hrest⟩ := List.map_eq_cons_iff.1 hss.symm
    rw [settles_unique (local_verdict V head) (ht _ s hs.symm) he, ih hrest.symm]

private theorem forward_alternatives {t : Json × Json → Option Bool} {key : String} (htwin : Twin debug b h)
    (hw : Undisturbed V base head b h w) (hkey : key ∈ COMBINATORS)
    (hpart : ∀ b' h' w', Part V base head b h w held b' h' w' →
      Below (t (b', w')) (answers (verdict V head) (h', w'))) :
    Below (alternatives t b w key) (alternatives (answers (verdict V head)) h w key) := by
  have hsub : COMBINATORS ⊆ SUBSCHEMA_ARRAYS := by decide
  have hneutral := hw.alternatives key hkey
  cases hbs : arrayAt key b with
  | none =>
    cases hhs : arrayAt key h with
    | none => simp only [alternatives, hbs, hhs, Option.elim_none, Below.refl]
    | some hs =>
      rw [hbs, hhs] at hneutral
      obtain ⟨rs, hrs, hcounted⟩ := hneutral
      simp only [alternatives, hbs, hhs, Option.elim_none, Option.elim_some]
      intro r hr
      obtain rfl := Option.some.inj hr
      refine tally_eq_some.2 ⟨rs, ?_, hcounted⟩
      rw [← List.forall₂_eq_eq_eq, List.forall₂_map_left_iff, List.forall₂_map_right_iff]
      exact hrs.imp fun e r he => (answers_eq_some_iff (local_verdict V head)).2 he
  | some bs =>
    obtain ⟨hs, hhs, hlength, -⟩ := htwin.clean.listed (hsub hkey) hbs
    rw [hbs, hhs] at hneutral
    simp only [alternatives, hbs, hhs, Option.elim_some]
    rw [← List.take_append_drop bs.length hs, List.map_append]
    refine tally_appended (counted_append hkey) (forall₂_below ?_ fun i x y hx hy => ?_) fun a ha => ?_
    · rw [List.length_take, Nat.min_eq_left hlength]
    · exact hpart x y w (.alternative hkey hbs hhs hx (getElem?_of_take hy))
    · obtain ⟨e, he, rfl⟩ := List.mem_map.1 ha
      exact (answers_eq_some_iff (local_verdict V head)).2 (hneutral e he)

private theorem backward_alternatives {t : Json × Json → Option Bool} {key : String} (htwin : Twin debug b h)
    (hw : Undisturbed V base head b h w) (hkey : key ∈ COMBINATORS)
    (ht : ∀ y r, t y = some r → Settles (verdict V head) y r)
    (hpart : ∀ b' h' w', Part V base head b h w held b' h' w' →
      Below (t (h', w')) (answers (verdict V base) (b', w'))) :
    Below (alternatives t h w key) (alternatives (answers (verdict V base)) b w key) := by
  have hsub : COMBINATORS ⊆ SUBSCHEMA_ARRAYS := by decide
  have hneutral := hw.alternatives key hkey
  cases hbs : arrayAt key b with
  | none =>
    cases hhs : arrayAt key h with
    | none => simp only [alternatives, hbs, hhs, Option.elim_none, Below.refl]
    | some hs =>
      rw [hbs, hhs] at hneutral
      obtain ⟨rs, hrs, hcounted⟩ := hneutral
      simp only [alternatives, hbs, hhs, Option.elim_none, Option.elim_some]
      intro r hr
      obtain ⟨ss, hss, rfl⟩ := tally_eq_some.1 hr
      rw [eq_of_settled ht hrs hss, hcounted]
  | some bs =>
    obtain ⟨hs, hhs, hlength, -⟩ := htwin.clean.listed (hsub hkey) hbs
    rw [hbs, hhs] at hneutral
    simp only [alternatives, hbs, hhs, Option.elim_some]
    rw [← List.take_append_drop bs.length hs, List.map_append]
    refine tally_dropped (counted_append hkey) (forall₂_below ?_ fun i x y hx hy => ?_) fun a ha r hr => ?_
    · rw [List.length_take, Nat.min_eq_left hlength]
    · exact hpart y x w (.alternative hkey hbs hhs hy (getElem?_of_take hx))
    · obtain ⟨e, he, rfl⟩ := List.mem_map.1 ha
      exact settles_unique (local_verdict V head) (ht _ r hr) (hneutral e he)

private theorem twin_applies {v : Json} (hroot : Twin debug base head)
    (hall : ∀ b h w, Applies V base head v b h w → Undisturbed V base head b h w) (happlies : Applies V base head v b h w) :
    Twin debug b h := by
  induction happlies with
  | document => exact hroot
  | part happlies hpart ih => exact twin_part hroot ih (hall _ _ _ happlies) hpart

private theorem verdict_of_same (t t' : Json × Json → Option Bool) (hb : asObject b = none) (hsame : same b h = true) :
    verdict V base t (b, w) = verdict V head t' (h, w) := by
  cases b <;> cases h <;> simp_all [same, equalBy, asObject, verdict]

/-- The questions the two documents are asked in the same place about the same part of the instance. -/
def Alike (V : Vocabulary) (base head v : Json) (x y : Json × Json) : Prop :=
  x.2 = y.2 ∧ Applies V base head v x.1 y.1 x.2

/-- What the base settles of an instance, the head settles. -/
private theorem forward {v : Json} (hroot : Twin debug base head)
    (hall : ∀ b h w, Applies V base head v b h w → Undisturbed V base head b h w) {r : Bool}
    (hsettled : Settles (verdict V base) (base, v) r) : Settles (verdict V head) (head, v) r := by
  have hstart : Alike V base head v (base, v) (head, v) := ⟨rfl, .document⟩
  refine settles_of_simulation (local_verdict V head) (fun t x y hR ht hbelow => ?_) hstart hsettled
  obtain ⟨b, w⟩ := x
  obtain ⟨h, w'⟩ := y
  obtain ⟨rfl, happlies⟩ := hR
  have htwin := twin_applies hroot hall happlies
  obtain ⟨hb, hh⟩ | ⟨hb, -, hsame⟩ := htwin.clean.cases
  · have hw := hall b h w happlies
    have hpart : ∀ b' h' w', Part V base head b h w (fun c r => Settles (verdict V base) (c, w) r) b' h' w' →
        Below (t (b', w')) (answers (verdict V head) (h', w')) :=
      fun b' h' w' hpart => hbelow (b', w') (h', w') ⟨rfl, .part happlies hpart⟩
    exact below_verdict hb hh (aligned hroot htwin hw) (fun c r _ hc => ht _ r hc) hpart
      fun key hkey => forward_alternatives htwin hw hkey hpart
  · rw [verdict_of_same t (answers (verdict V head)) hb hsame]
    exact .refl _

/-- What the head settles of an instance, the base settles. -/
private theorem backward {v : Json} (hroot : Twin debug base head)
    (hall : ∀ b h w, Applies V base head v b h w → Undisturbed V base head b h w) {r : Bool}
    (hsettled : Settles (verdict V head) (head, v) r) : Settles (verdict V base) (base, v) r := by
  have hstart : Alike V base head v (base, v) (head, v) := ⟨rfl, .document⟩
  refine settles_of_simulation (local_verdict V base)
    (fun t y x (hR : Alike V base head v x y) ht hbelow => ?_) hstart hsettled
  obtain ⟨b, w⟩ := x
  obtain ⟨h, w'⟩ := y
  obtain ⟨rfl, happlies⟩ := hR
  have htwin := twin_applies hroot hall happlies
  obtain ⟨hb, hh⟩ | ⟨hb, -, hsame⟩ := htwin.clean.cases
  · have hw := hall b h w happlies
    have hpart : ∀ b' h' w', Part V base head b h w (fun c r => Settles (verdict V base) (c, w) r) b' h' w' →
        Below (t (h', w')) (answers (verdict V base) (b', w')) :=
      fun b' h' w' hpart => hbelow (h', w') (b', w') ⟨rfl, .part happlies hpart⟩
    -- the consequence that applies is the one the base's own condition selects
    have hheld : ∀ c r, get "if" h = some c → t (c, w) = some r →
        ∃ c', get "if" b = some c' ∧ Settles (verdict V base) (c', w) r := by
      intro c r hc hr
      obtain ⟨-, hnone⟩ | ⟨c', c'', hb', hh', -⟩ := htwin.clean.single (by decide : "if" ∈ SINGLE_SUBSCHEMA)
      · rw [hnone] at hc
        cases hc
      · obtain rfl := Option.some.inj (hh'.symm.trans hc)
        have hanswer := hpart c' c'' w (.inPlace (by decide) hb' hc) r hr
        exact ⟨c', hb', (answers_eq_some_iff (local_verdict V base)).1 hanswer⟩
    have hpart' : ∀ h' b' w', Part V head base h b w
        (fun _ r => ∃ c', get "if" b = some c' ∧ Settles (verdict V base) (c', w) r) h' b' w' →
        Below (t (h', w')) (answers (verdict V base) (b', w')) :=
      fun h' b' w' hp => hpart b' h' w' (hp.symm fun _ _ hc => hc)
    exact below_verdict hh hb (aligned hroot htwin hw).symm hheld hpart'
      fun key hkey => backward_alternatives htwin hw hkey ht hpart
  · rw [← verdict_of_same (answers (verdict V base)) t hb hsame]
    exact .refl _

/-- Two documents that pass every check agree on every instance that what the head adds does not bear on. -/
theorem valid_iff_valid (hbase : lintDocument base = []) (hhead : lintDocument head = [])
    (hdiff : diffDocuments debug base head = []) {v : Json}
    (hall : ∀ b h w, Applies V base head v b h w → Undisturbed V base head b h w) :
    Valid V base v ↔ Valid V head v := by
  have hroot : Twin debug base head :=
    ⟨⟨_, hdiff⟩, ⟨_, (List.append_eq_nil_iff.1 hbase).2⟩, ⟨_, (List.append_eq_nil_iff.1 hhead).2⟩⟩
  exact ⟨forward hroot hall, backward hroot hall⟩

/-! A published schema, and a proposed one that adds a member and a conjunct. -/

def typeName : Json → String
  | .null => "null"
  | .bool _ => "boolean"
  | .number _ => "number"
  | .string _ => "string"
  | .array _ => "array"
  | .object _ => "object"

/-- A validator that knows the keyword `type` with one name, and pointers to named definitions. -/
def typesOnly : Vocabulary where
  admits key a v := key != "type" || asStr a == some (typeName v)
  admits_same v h := by rw [asStr_of_same h]
  fragment r := if r = "#" then some [] else
    if "#/$defs/".toList <+: r.toList then some [.named "$defs" (String.ofList (r.toList.drop 8))] else none

def published : Json := .object [("$id", .string "frame"), ("title", .string "Frame"),
  ("properties", .object [("op", .object [("type", .string "string")])])]

def proposed : Json := .object [("$id", .string "frame"), ("title", .string "Frame"),
  ("properties", .object [("op", .object [("type", .string "string")]), ("id", .object [("type", .string "string")])]),
  ("allOf", .array [.object [("required", .array [.string "op"])]])]


/-- A conjunct that the diff lets the head append rejects an instance the base admits. -/
theorem appended_conjunct_rejects : lintDocument published = [] ∧ lintDocument proposed = [] ∧
    diffDocuments (fun _ => "") published proposed = [] ∧ members (.object []) = [] ∧
    Valid typesOnly published (.object []) ∧ ¬ Valid typesOnly proposed (.object []) := by
  have hrejected : Settles (verdict typesOnly proposed) (proposed, .object []) false := ⟨3, by decide +kernel⟩
  refine ⟨by decide +kernel, by decide +kernel, by decide +kernel, rfl, ⟨3, by decide +kernel⟩, fun hvalid => ?_⟩
  exact nomatch settles_unique (local_verdict typesOnly proposed) hvalid hrejected

private theorem member_of_part {rx ry x y v x' y' w : Json} {held : Json → Bool → Prop} (htarget : target V rx x = none)
    (helements : elements v = []) (hsingle : ∀ key ∈ ["propertyNames", "if", "not"], (get key x).isNone = true)
    (harrays : ∀ key ∈ COMBINATORS, (arrayAt key x).isNone = true) (hpart : Part V rx ry x y v held x' y' w) :
    ∃ p ∈ members v, memberSchema x p.1 = some x' ∧ memberSchema y p.1 = some y' ∧ w = p.2 := by
  cases hpart with
  | reference hx hy => rw [htarget] at hx; cases hx
  | member hp hx hy => exact ⟨_, hp, hx, hy, rfl⟩
  | name _ hx _ =>
    have hnone := hsingle "propertyNames" (by decide)
    rw [hx] at hnone
    cases hnone
  | element hi _ _ => rw [helements] at hi; cases hi
  | inPlace hkey hx _ =>
    have hnone := hsingle _ (List.mem_cons_of_mem "propertyNames" hkey)
    rw [hx] at hnone
    cases hnone
  | consequence hc _ _ _ =>
    have hnone := hsingle "if" (by decide)
    rw [hc] at hnone
    cases hnone
  | alternative hkey hxs _ _ _ =>
    have hnone := harrays _ hkey
    rw [hxs] at hnone
    cases hnone

private theorem applies_read {b h w : Json}
    (happlies : Applies typesOnly published proposed (.object [("op", .string "read")]) b h w) :
    (b = published ∧ h = proposed ∧ w = .object [("op", .string "read")]) ∨
    (b = .object [("type", .string "string")] ∧ h = .object [("type", .string "string")] ∧ w = .string "read") := by
  induction happlies with
  | document => exact .inl ⟨rfl, rfl, rfl⟩
  | part _ hpart ih =>
    obtain ⟨rfl, rfl, rfl⟩ | ⟨rfl, rfl, rfl⟩ := ih
    · obtain ⟨p, hp, hb, hh, rfl⟩ := member_of_part rfl rfl (by decide) (by decide) hpart
      obtain rfl := List.mem_singleton.1 hp
      exact .inr ⟨(Option.some.inj hb).symm, (Option.some.inj hh).symm, rfl⟩
    · obtain ⟨p, hp, -⟩ := member_of_part rfl rfl (by decide) (by decide) hpart
      cases hp

theorem valid_iff_valid_read : Valid typesOnly published (.object [("op", .string "read")]) ↔
    Valid typesOnly proposed (.object [("op", .string "read")]) := by
  refine @valid_iff_valid typesOnly published proposed (fun _ => "") (by decide +kernel) (by decide +kernel)
    (by decide +kernel) _ fun b h w happlies => ?_
  obtain ⟨rfl, rfl, rfl⟩ | ⟨rfl, rfl, rfl⟩ := applies_read happlies
  · refine ⟨fun p hp hb => ?_, fun i hi => (nomatch hi), fun h => (nomatch h), fun key hkey => ?_⟩
    · obtain rfl := List.mem_singleton.1 hp
      cases hb
    · simp only [COMBINATORS, List.mem_cons, List.not_mem_nil, or_false] at hkey
      rcases hkey with rfl | rfl | rfl
      · exact ⟨[true], .cons ⟨1, by decide +kernel⟩ .nil, rfl⟩
      · exact trivial
      · exact trivial
  · refine ⟨fun p hp => (nomatch hp), fun i hi => (nomatch hi), fun h => (nomatch h), fun key hkey => ?_⟩
    simp only [COMBINATORS, List.mem_cons, List.not_mem_nil, or_false] at hkey
    rcases hkey with rfl | rfl | rfl <;> exact trivial

end PactJanus.SchemaCompat.Additive
