import PactJanus.Shape.VariantSpace

namespace PactJanus.Variant.References

open PactJanus.Shape.VariantSpace

/-! References to a dimension, and the labels a dimension is shown by: a path's segments, from the last one back. -/

def beginsToken (ch : Char) : Bool := ch == '.' || ch == '[' || ch == '\x7b' || ch == '@'

/-- The tokens of the characters left, after those of the token under way. -/
def tokensFrom : List Char → List Char → List String
  | current, [] => if current.isEmpty then [] else [String.ofList current]
  | current, ch :: rest =>
    if beginsToken ch && !current.isEmpty then String.ofList current :: tokensFrom [ch] rest
    else tokensFrom (current ++ [ch]) rest

/-- A dimension path's tokens, each but the first with the delimiter it begins with. -/
def pathTokens (path : String) : List String := tokensFrom [] path.toList

/-- The text of the last `k` tokens, or of all of them. -/
def suffixText (tokens : List String) (k : Nat) : String := String.join (tokens.drop (tokens.length - k))

def stripLeadingDot (s : String) : String :=
  match s.toList with
  | '.' :: rest => String.ofList rest
  | _ => s

inductive RefResolution where
  | notFound
  | ambiguous (candidates : List String)
  | found (dimension : Dimension)

/-- A reference is a dimension's id, its path, or a trailing run of whole segments of its path. -/
def refersTo (reference : String) (d : Dimension) : Bool :=
  d.id == reference || d.path == reference ||
    (List.range (pathTokens d.path).length).any fun k =>
      stripLeadingDot (suffixText (pathTokens d.path) (k + 1)) == reference

def resolveDimensionRef (space : List Dimension) (reference : String) : RefResolution :=
  match space.filter (refersTo reference) with
  | [] => .notFound
  | [d] => .found d
  | found => .ambiguous (found.map Dimension.id)

/-- The dimension of an id, the last where the id comes twice. -/
def byId (space : List Dimension) (id : String) : Option Dimension := space.reverse.find? fun d => d.id == id

/-- Whether another dimension's last `k` tokens read as a candidate does. -/
def collides (space : List Dimension) (d : Dimension) (candidate : String) (k : Nat) : Bool :=
  space.any fun other =>
    let theirs := pathTokens other.path
    other.id ≠ d.id && stripLeadingDot (suffixText theirs (min k (max theirs.length 1))) == candidate

/-- The label from `k` tokens on, with that many lengths left to try. -/
def labelFrom (space : List Dimension) (d : Dimension) : Nat → Nat → String
  | 0, _ => d.id
  | left + 1, k =>
    let candidate := stripLeadingDot (suffixText (pathTokens d.path) k)
    if collides space d candidate k then
      if left = 0 then candidate ++ "#" ++ d.facet.text else labelFrom space d left (k + 1)
    else candidate

/-- The fewest trailing segments no other dimension has, with the facet where the path alone is not enough. -/
def dimensionLabel (d : Dimension) (space : List Dimension) : String :=
  labelFrom space d (max (pathTokens d.path).length 1) 1

def computeLabels (space : List Dimension) (id : String) : String :=
  ((byId space id).map fun d => dimensionLabel d space).getD id

theorem byId_some {space : List Dimension} {id : String} {d : Dimension} (h : byId space id = some d) :
    d ∈ space ∧ d.id = id := by
  have hid := List.find?_some h
  exact ⟨List.mem_reverse.1 (List.mem_of_find?_eq_some h), beq_iff_eq.1 hid⟩

/-- Where the ids are distinct, a dimension is the one of its id. -/
theorem byId_self {space : List Dimension} (hd : (space.map Dimension.id).Nodup) {d : Dimension} (h : d ∈ space) :
    byId space d.id = some d := by
  cases hfound : byId space d.id with
  | none =>
    have := List.find?_eq_none.1 hfound d (List.mem_reverse.2 h)
    simp at this
  | some e =>
    obtain ⟨he, hid⟩ := byId_some hfound
    rw [List.inj_on_of_nodup_map hd he h hid]

example : pathTokens "response.body.items[*]" = ["response", ".body", ".items", "[*]"] := by decide

private theorem mem_of_mem_tokensFrom {ch : Char} {token : String} (hch : ch ∈ token.toList) {left current : List Char}
    (h : token ∈ tokensFrom current left) : ch ∈ current ∨ ch ∈ left := by
  induction left generalizing current with
  | nil =>
    unfold tokensFrom at h
    split at h
    · exact absurd h List.not_mem_nil
    · obtain rfl := List.mem_singleton.1 h
      rw [String.toList_ofList] at hch
      exact Or.inl hch
  | cons next left ih =>
    unfold tokensFrom at h
    split at h
    · rcases List.mem_cons.1 h with rfl | h
      · rw [String.toList_ofList] at hch
        exact Or.inl hch
      · refine Or.inr ((ih h).elim (fun hnext => ?_) (List.mem_cons_of_mem _))
        exact List.mem_singleton.1 hnext ▸ List.mem_cons_self
    · rcases ih h with hmem | hmem
      · refine (List.mem_append.1 hmem).imp_right fun hnext => ?_
        exact List.mem_singleton.1 hnext ▸ List.mem_cons_self
      · exact Or.inr (List.mem_cons_of_mem _ hmem)

private theorem mem_stripLeadingDot {ch : Char} {s : String} (h : ch ∈ (stripLeadingDot s).toList) : ch ∈ s.toList := by
  unfold stripLeadingDot at h
  split at h
  · rename_i rest heq
    rw [String.toList_ofList] at h
    exact heq ▸ List.mem_cons_of_mem _ h
  · exact h

private theorem mem_join {ch : Char} {tokens : List String} (h : ch ∈ (String.join tokens).toList) :
    ∃ token ∈ tokens, ch ∈ token.toList := by
  rw [String.toList_join] at h
  exact List.mem_flatMap.1 h

/-- Whatever a reference to a dimension by its path holds, the path holds. -/
theorem mem_path_of_refersTo {reference : String} {d : Dimension} (h : refersTo reference d = true)
    (hid : d.id ≠ reference) {ch : Char} (hch : ch ∈ reference.toList) : ch ∈ d.path.toList := by
  rw [refersTo, Bool.or_eq_true, Bool.or_eq_true] at h
  rcases h with (hsame | hpath) | htrail
  · exact absurd (beq_iff_eq.1 hsame) hid
  · exact (beq_iff_eq.1 hpath) ▸ hch
  · obtain ⟨k, -, htext⟩ := List.any_eq_true.1 htrail
    rw [← beq_iff_eq.1 htext] at hch
    obtain ⟨token, htoken, hmem⟩ := mem_join (mem_stripLeadingDot hch)
    exact (mem_of_mem_tokensFrom hmem (List.mem_of_mem_drop htoken)).resolve_left List.not_mem_nil

end PactJanus.Variant.References
