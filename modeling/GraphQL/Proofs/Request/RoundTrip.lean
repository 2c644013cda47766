import GraphQL.Proofs.Json.Kept
import GraphQL.Proofs.Response.RoundTrip
import GraphQL.Request

/-!
# `GraphQL/Proofs/Request/RoundTrip.lean` — requests are read back

A request comes in two layouts, as an object or as an array of its parts, and two of its three parts
may be missing or null. `Request.Body` says which parts a body has, `Request.Names` and
`Request.Supplies` say what the two optional ones come to, and reading is exactly these three
(`Request.ofWritten?_eq_some_iff`). Writing chooses one body of many: an object without the parts
that are empty. What is left out there is what is read of a part that is missing, and so a request is
read back from what is written of it (`Request.ofWritten?_ofJson`), and one that was read in any
layout is read once more as the same (`Request.comes_back`).

The variables are kept as they are: no entry is lost or moved unless the body has its key twice.
-/

set_option autoImplicit false

namespace GraphQL

open Json (Written)

namespace Request

/-! ## 1. Writing -/

/-- The members of a request as it is written. -/
def members (request : Request) : Json.Members :=
  ("query", .string request.query) ::
  (request.operationName.map fun name => ("operationName", Json.string name)).toList ++
  Json.memberUnless request.variableValues.isEmpty "variables" (.object request.variableValues)

theorem keys_members_sublist (request : Request) :
    request.members.keys.Sublist memberNames := by
  unfold members Entries.keys
  rw [List.map_append, List.map_cons]
  have hname : ((request.operationName.map fun name =>
      ("operationName", Json.string name)).toList.map Prod.fst).Sublist ["operationName"] := by
    cases request.operationName with
    | none => exact List.nil_sublist _
    | some name => exact List.Sublist.refl _
  have hvariables := Json.keys_memberUnless_sublist request.variableValues.isEmpty "variables"
    (.object request.variableValues)
  exact (hname.cons_cons "query").append hvariables

variable (request : Request)

theorem get?_members_query : request.members.get? "query" = some (.string request.query) := rfl

theorem get?_members_operationName : request.members.get? "operationName" =
    request.operationName.map .string := by
  unfold members
  cases request.operationName with
  | none => simp [Entries.get?, Json.get?_memberUnless]
  | some name => simp [Entries.get?]

theorem get?_members_variables : request.members.get? "variables" =
    if request.variableValues.isEmpty = false then some (.object request.variableValues)
    else none := by
  unfold members
  cases request.operationName <;> simp [Entries.get?, Json.get?_memberUnless]

/-- A request is written as an object; a name that it does not have and variables that it does not
have are left out of it, and variables that it has are written as they are. -/
structure OmitsEmpty (request : Request) : Prop where
  object : request.toJson = .object request.members
  names : request.members.keys.Sublist memberNames
  query : request.members.get? "query" = some (.string request.query)
  operationName : request.members.get? "operationName" = request.operationName.map .string
  empty : request.variableValues = [] → request.members.get? "variables" = none
  variableValues : request.variableValues ≠ [] →
    request.members.get? "variables" = some (.object request.variableValues)

theorem omitsEmpty (request : Request) : request.OmitsEmpty where
  object := rfl
  names := request.keys_members_sublist
  query := request.get?_members_query
  operationName := request.get?_members_operationName
  empty h := by simp [get?_members_variables, h]
  variableValues h := by simp [get?_members_variables, h]

/-! ## 2. Reading -/

/-- The parts that a body of a request has: the members of an object under the three names, each of
which stands there at most once, or the items of an array. The query is always there. -/
inductive Body : Written → Written → Option Written → Option Written → Prop where
  | object {members : Entries Written} {query : Written}
    (hq : members.get? "query" = some query)
    (once : ∀ name ∈ memberNames, members.keys.count name ≤ 1) :
    Body (.object (members.map fun member => (some member.1, member.2))) query
      (members.get? "operationName") (members.get? "variables")
  | query (query : Written) : Body (.array [query]) query none none
  | named (query name : Written) : Body (.array [query, name]) query (some name) none
  | full (query name supplied : Written) :
    Body (.array [query, name, supplied]) query (some name) (some supplied)

/-- The name that a part of a body gives. A part that is missing and a part that is null give none.
-/
inductive Names : Option Written → Option String → Prop where
  | missing : Names none none
  | null : Names (some .null) none
  | name (name : String) : Names (some (.string (some name))) (some name)

/-- The variables that a part of a body supplies. A part that is missing and a part that is null
supply none, and so does an object without members. -/
inductive Supplies : Option Written → Json.Members → Prop where
  | missing : Supplies none []
  | null : Supplies (some .null) []
  | object {written : Written} {members : Json.Members}
    (hk : written.keep? = some (.object members)) : Supplies (some written) members

theorem mapM_keyed {read? : Option String × Written → Option (String × Written)}
    (hr : ∀ key item, read? (key, item) = key.map fun key => (key, item))
    {members : List (Option String × Written)} {keyed : Entries Written} :
    members.mapM read? = some keyed ↔ members = keyed.map fun member => (some member.1, member.2) := by
  induction members generalizing keyed with
  | nil =>
    rw [List.mapM_nil]
    cases keyed <;> simp
  | cons member rest ih =>
    obtain ⟨key, item⟩ := member
    rw [List.mapM_cons, hr]
    cases key with
    | none =>
      refine iff_of_false (by simp) ?_
      cases keyed <;> simp
    | some key =>
      simp only [Option.map_some, Option.bind_eq_bind, Option.bind_some, Option.bind_eq_some_iff, ih]
      cases keyed with
      | nil => simp
      | cons first more =>
        obtain ⟨firstKey, firstItem⟩ := first
        simp [and_comm]

/-- The members of an object as parts. -/
theorem parts?_object_iff {members : List (Option String × Written)}
    {parts : List (Option Written)} :
    (Written.object members).parts? memberNames false = some parts ↔
      ∃ keyed : Entries Written, members = keyed.map (fun member => (some member.1, member.2)) ∧
        (∀ name ∈ memberNames, keyed.keys.count name ≤ 1) ∧
        parts = memberNames.map keyed.get? := by
  rw [Written.parts?, Option.bind_eq_bind, Option.bind_eq_some_iff]
  refine exists_congr fun keyed => ?_
  rw [mapM_keyed fun _ _ => rfl]
  refine and_congr_right fun _ => ?_
  have hkeys : keyed.map Prod.fst = Entries.keys keyed := rfl
  have hcount : memberNames.any (fun name => decide (1 < (Entries.keys keyed).count name)) = true ↔
      ¬ ∀ name ∈ memberNames, (Entries.keys keyed).count name ≤ 1 := by
    simp
  dsimp only
  rw [hkeys, Bool.false_and, if_neg Bool.false_ne_true]
  by_cases h : ∀ name ∈ memberNames, (Entries.keys keyed).count name ≤ 1
  · rw [if_neg (mt hcount.mp (not_not_intro h)), Option.some.injEq, and_iff_right h, eq_comm]
  · rw [if_pos (hcount.mpr h)]
    exact iff_of_false (by simp) fun hall => h hall.1

/-- The parts that are read of a body are those that it has. -/
theorem parts?_eq_some_iff {body query : Written} {name supplied : Option Written} :
    body.parts? memberNames false = some [some query, name, supplied] ↔
      Body body query name supplied := by
  constructor
  · intro h
    cases body with
    | object members =>
      obtain ⟨keyed, rfl, once, hparts⟩ := parts?_object_iff.mp h
      simp only [memberNames, List.map_cons, List.map_nil, List.cons.injEq, and_true] at hparts
      obtain ⟨hquery, rfl, rfl⟩ := hparts
      exact .object hquery.symm once
    | array items =>
      rcases items with _ | ⟨query, _ | ⟨name, _ | ⟨supplied, _ | ⟨more, rest⟩⟩⟩⟩
      · cases h
      · cases h
        exact .query query
      · cases h
        exact .named query name
      · cases h
        exact .full query name supplied
      · have hlength : ¬ (query :: name :: supplied :: more :: rest).length ≤ memberNames.length := by
          simp [memberNames]
        rw [Written.parts?, if_neg hlength] at h
        cases h
    | _ => cases h
  · intro h
    cases h with
    | object hq once =>
      refine parts?_object_iff.mpr ⟨_, rfl, once, ?_⟩
      rw [← hq]
      rfl
    | _ => rfl

theorem Body.unique {body query query' : Written} {name name' supplied supplied' : Option Written}
    (h : Body body query name supplied) (h' : Body body query' name' supplied') :
    query = query' ∧ name = name' ∧ supplied = supplied' := by
  have hparts := (parts?_eq_some_iff.mpr h).symm.trans (parts?_eq_some_iff.mpr h')
  simpa using hparts

theorem part?_operationName_iff {part : Option Written} {name : Option String} :
    Written.part? operationName? none part = some name ↔ Names part name := by
  constructor
  · intro h
    cases part with
    | none =>
      cases h
      exact .missing
    | some written =>
      cases written with
      | null =>
        cases h
        exact .null
      | string s =>
        obtain ⟨s, rfl, rfl⟩ := Option.map_eq_some_iff.mp h
        exact .name s
      | _ => cases h
  · intro h
    cases h <;> rfl

theorem members?_eq_some_iff {written : Written} {members : Json.Members} :
    written.members? = some members ↔ written.keep? = some (.object members) := by
  unfold Written.members?
  split
  · next h => simp [h]
  · next hne =>
    refine iff_of_false (by simp) ?_
    exact hne members

theorem part?_variableValues_iff {part : Option Written} {members : Json.Members} :
    Written.part? variableValues? [] part = some members ↔ Supplies part members := by
  constructor
  · intro h
    cases part with
    | none =>
      cases h
      exact .missing
    | some written =>
      cases written with
      | null =>
        cases h
        exact .null
      | _ => exact .object (members?_eq_some_iff.mp h)
  · intro h
    cases h with
    | missing => rfl
    | null => rfl
    | object hk =>
      have hmembers := members?_eq_some_iff.mpr hk
      rw [Written.part?, variableValues?, hmembers]
      rintro rfl
      cases hk

/-- A body says a request: it has the query, and its other parts give the name and supply the
variables. -/
def Says (body : Written) (request : Request) : Prop :=
  ∃ name supplied, Body body (.string (some request.query)) name supplied ∧
    Names name request.operationName ∧ Supplies supplied request.variableValues

/-- The request that is read of a body is the one that it says. -/
theorem ofWritten?_eq_some_iff {body : Written} {request : Request} :
    ofWritten? body = some request ↔ Says body request := by
  unfold ofWritten?
  constructor
  · intro h
    obtain ⟨parts, hparts, h⟩ := Option.bind_eq_some_iff.mp h
    split at h
    · next query name supplied =>
      simp only [Option.bind_eq_bind, Option.bind_eq_some_iff, part?_operationName_iff,
        part?_variableValues_iff] at h
      obtain ⟨text, hquery, given, hname, members, hsupplied, hrequest⟩ := h
      cases hrequest
      have hbody := parts?_eq_some_iff.mp hparts
      cases query with
      | string s =>
        cases hquery
        exact ⟨name, supplied, hbody, hname, hsupplied⟩
      | _ => cases hquery
    · cases h
  · rintro ⟨name, supplied, hbody, hname, hsupplied⟩
    rw [parts?_eq_some_iff.mpr hbody]
    simp only [Option.bind_eq_bind, Option.bind_some, part?_operationName_iff.mpr hname,
      part?_variableValues_iff.mpr hsupplied]
    rfl

/-! ## 3. Reading what was written -/

/-- No key stands twice in the variables of a request. -/
def Keyed (request : Request) : Prop :=
  (Json.object request.variableValues).Keyed

/-- The numbers in the variables of a request are read back from their texts. -/
def Exact (request : Request) : Prop :=
  (Json.object request.variableValues).Exact

theorem body_ofJson (request : Request) :
    Body (.ofJson request.toJson) (.string (some request.query))
      (request.operationName.map fun name => .string (some name))
      (if request.variableValues.isEmpty = false then
        some (.ofJson (.object request.variableValues)) else none) := by
  rw [← parts?_eq_some_iff, request.omitsEmpty.object,
    Written.parts?_ofJson request.keys_members_sublist (by decide)]
  simp only [memberNames, List.map_cons, List.map_nil, get?_members_query,
    get?_members_operationName, get?_members_variables, Option.map_map]
  congr 3
  split <;> rfl

theorem supplies_ofJson {members : Json.Members} (hk : (Json.object members).Keyed) :
    Supplies (some (.ofJson (.object members))) members :=
  .object (Written.keep?_ofJson hk)

theorem says_ofJson {request : Request} (hk : request.Keyed) :
    Says (.ofJson request.toJson) request := by
  refine ⟨_, _, request.body_ofJson, ?_, ?_⟩
  · cases request.operationName with
    | none => exact .missing
    | some name => exact .name name
  · split
    · exact supplies_ofJson hk
    · next h =>
      have hempty : request.variableValues = [] := by simpa using h
      rw [hempty]
      exact .missing

theorem Supplies.keyed {part : Option Written} {members : Json.Members} (h : Supplies part members) :
    (Json.object members).Keyed := by
  cases h with
  | object hk => exact Written.keyed_of_keep? hk
  | _ => simp [Entries.keys]

theorem Says.keyed {body : Written} {request : Request} (h : Says body request) :
    request.Keyed := by
  obtain ⟨name, supplied, -, -, hsupplied⟩ := h
  exact hsupplied.keyed

/-- A request in which no key stands twice is read back from what is written of it. -/
theorem ofWritten?_ofJson {request : Request} (hk : request.Keyed) :
    ofWritten? (.ofJson request.toJson) = some request :=
  ofWritten?_eq_some_iff.mpr (says_ofJson hk)

/-! ## 4. Texts -/

theorem exact_toJson {request : Request} (hx : request.Exact) : request.toJson.Exact := by
  rw [request.omitsEmpty.object, Json.exact_object_iff, members, List.forall_mem_append,
    List.forall_mem_cons]
  refine ⟨⟨.string _, ?_⟩, Json.exact_of_mem_memberUnless fun _ => hx⟩
  cases request.operationName <;> simp

theorem read?_text {request : Request} (hk : request.Keyed) (hx : request.Exact)
    (hd : depth (.ofJson request.toJson) ≤ Json.depthLimit) :
    read? request.text = some request := by
  rw [read?, text, Written.read?_text (exact_toJson hx)]
  exact (if_pos hd).trans (ofWritten?_ofJson hk)

/-- How deep the part is that supplies the variables, together with the request around it. -/
def depthOf (supplied : Option Written) : Nat :=
  supplied.elim 0 Written.depth + 1

theorem Body.depth_eq {body query : Written} {name supplied : Option Written}
    (h : Body body query name supplied) : depth body = depthOf supplied := by
  unfold depth
  rw [parts?_eq_some_iff.mpr h]
  cases supplied <;> rfl

/-- What is written of a request is no deeper than what the request was read from. -/
theorem Says.depth_le {body : Written} {request : Request} (h : Says body request) :
    depth (.ofJson request.toJson) ≤ depth body := by
  obtain ⟨name, supplied, hbody, -, hsupplied⟩ := h
  rw [request.body_ofJson.depth_eq, hbody.depth_eq]
  generalize request.variableValues = members at hsupplied
  cases hsupplied with
  | missing => exact Nat.le_refl _
  | null => exact Nat.le_refl _
  | object hk =>
    have hdepth := Written.depth_ofJson_le hk
    split
    · exact Nat.succ_le_succ hdepth
    · exact Nat.succ_le_succ (Nat.zero_le _)

/-- A request that was read from a text is read again from its own text. -/
theorem read?_text_of_read? {source : String} {request : Request}
    (h : read? source = some request) (hx : request.Exact) : read? request.text = some request := by
  obtain ⟨body, -, h⟩ := Option.bind_eq_some_iff.mp h
  split at h
  · next hd =>
    have hsay := ofWritten?_eq_some_iff.mp h
    exact read?_text hsay.keyed hx (Nat.le_trans hsay.depth_le hd)
  · cases h

/-! ## 5. Bodies that say the same -/

/-- Two parts that give the same name: they are the same, or each is missing or null. -/
inductive SameName : Option Written → Option Written → Prop where
  | refl (part : Option Written) : SameName part part
  | none {part part' : Option Written} (h : part = none ∨ part = some .null)
    (h' : part' = none ∨ part' = some .null) : SameName part part'

/-- Two parts that supply the same variables: they are the same, or each is missing, null or an
object without members. -/
inductive SameVariables : Option Written → Option Written → Prop where
  | refl (part : Option Written) : SameVariables part part
  | empty {part part' : Option Written}
    (h : part = none ∨ part = some .null ∨ part = some (.object []))
    (h' : part' = none ∨ part' = some .null ∨ part' = some (.object [])) :
    SameVariables part part'

theorem names_of_none {part : Option Written} (h : part = none ∨ part = some .null)
    {name : Option String} : Names part name ↔ name = none := by
  constructor
  · intro hn
    rcases h with rfl | rfl <;> cases hn <;> rfl
  · rintro rfl
    rcases h with rfl | rfl
    · exact .missing
    · exact .null

theorem supplies_of_empty {part : Option Written}
    (h : part = none ∨ part = some .null ∨ part = some (.object [])) {members : Json.Members} :
    Supplies part members ↔ members = [] := by
  constructor
  · intro hs
    rcases h with rfl | rfl | rfl
    · cases hs
      rfl
    · cases hs with
      | null => rfl
      | object hk => cases hk
    · cases hs with
      | object hk =>
        cases hk
        rfl
  · rintro rfl
    rcases h with rfl | rfl | rfl
    · exact .missing
    · exact .null
    · exact .object rfl

theorem SameName.names_iff {part part' : Option Written} (h : SameName part part')
    (name : Option String) : Names part name ↔ Names part' name := by
  cases h with
  | refl => exact Iff.rfl
  | none h h' => rw [names_of_none h, names_of_none h']

theorem SameVariables.supplies_iff {part part' : Option Written} (h : SameVariables part part')
    (members : Json.Members) : Supplies part members ↔ Supplies part' members := by
  cases h with
  | refl => exact Iff.rfl
  | empty h h' => rw [supplies_of_empty h, supplies_of_empty h']

theorem Body.says_iff {body query : Written} {name supplied : Option Written}
    (h : Body body query name supplied) (request : Request) :
    Says body request ↔ query = .string (some request.query) ∧
      Names name request.operationName ∧ Supplies supplied request.variableValues := by
  constructor
  · rintro ⟨name', supplied', hbody, hname, hsupplied⟩
    obtain ⟨rfl, rfl, rfl⟩ := h.unique hbody
    exact ⟨rfl, hname, hsupplied⟩
  · rintro ⟨rfl, hname, hsupplied⟩
    exact ⟨name, supplied, h, hname, hsupplied⟩

/-- Two bodies with the same query that give the same name and supply the same variables are read
alike, in whatever layout each of them is. -/
theorem ofWritten?_eq_of_same {body body' query : Written}
    {name name' supplied supplied' : Option Written} (h : Body body query name supplied)
    (h' : Body body' query name' supplied') (hn : SameName name name')
    (hs : SameVariables supplied supplied') : ofWritten? body = ofWritten? body' := by
  refine Option.ext fun request => ?_
  rw [ofWritten?_eq_some_iff, ofWritten?_eq_some_iff, h.says_iff, h'.says_iff, hn.names_iff,
    hs.supplies_iff]

/-- Requests come back. A request in which no key stands twice is read back from what is written of
it, where nothing but an empty part is left out, and from its text, if the numbers in it are read
back and it is no deeper than a text may be. What is read of a body is what the body says, in either
layout; it comes back when it is written and read once more, also as a text. A missing name is the
same as null; missing variables are the same as null and as no variables; and any other variables
are kept as they are. -/
theorem comes_back :
    (∀ request : Request, request.Keyed →
      ofWritten? (.ofJson request.toJson) = some request ∧ request.OmitsEmpty ∧
        (request.Exact → depth (.ofJson request.toJson) ≤ Json.depthLimit →
          read? request.text = some request)) ∧
    (∀ (body : Written) (request : Request), ofWritten? body = some request ↔ Says body request) ∧
    (∀ (body : Written) (request : Request), ofWritten? body = some request →
      ofWritten? (.ofJson request.toJson) = some request) ∧
    (∀ (source : String) (request : Request), read? source = some request → request.Exact →
      read? request.text = some request) ∧
    (∀ (body body' query : Written) (name name' supplied supplied' : Option Written),
      Body body query name supplied → Body body' query name' supplied' →
      SameName name name' → SameVariables supplied supplied' →
      ofWritten? body = ofWritten? body') ∧
    ∀ (body query : Written) (name : Option Written) (members : Json.Members) (request : Request),
      Body body query name (some (.ofJson (.object members))) → (Json.object members).Keyed →
      ofWritten? body = some request → request.variableValues = members := by
  refine ⟨fun request hk => ⟨ofWritten?_ofJson hk, request.omitsEmpty, read?_text hk⟩,
    fun body request => ofWritten?_eq_some_iff, fun body request h => ?_,
    fun source request => read?_text_of_read?, fun _ _ _ _ _ _ _ => ofWritten?_eq_of_same,
    fun body query name members request hbody hk h => ?_⟩
  · exact ofWritten?_ofJson (ofWritten?_eq_some_iff.mp h).keyed
  · obtain ⟨-, -, hsupplied⟩ := (hbody.says_iff request).mp (ofWritten?_eq_some_iff.mp h)
    have hread := part?_variableValues_iff.mpr hsupplied
    have hkept := part?_variableValues_iff.mpr (supplies_ofJson hk)
    exact Option.some.inj (hread.symm.trans hkept)

end Request

/-! ## 6. Two bodies to look at -/

namespace Sample

/-- A request with variables, one of which is a list with null in it, and without a name. -/
def unnamedRequest : Request where
  query := "query ($b: [Int], $a: A) { f(b: $b, a: $a) }"
  operationName := none
  variableValues := [("b", .array [.null, .ofInt 1]), ("a", .object [])]

/-- The request as an array, in which the name is null. -/
def unnamedArray : Written :=
  .array [.string (some unnamedRequest.query), .null, .ofJson (.object unnamedRequest.variableValues)]

/-- The request as an object in another order, without the name and with a member that does not
count. -/
def unnamedObject : Written :=
  .object [(some "variables", .ofJson (.object unnamedRequest.variableValues)),
    (some "id", .number none), (some "query", .string (some unnamedRequest.query))]

theorem body_unnamedArray : Request.Body unnamedArray (.string (some unnamedRequest.query))
    (some .null) (some (.ofJson (.object unnamedRequest.variableValues))) :=
  .full _ _ _

theorem body_unnamedObject : Request.Body unnamedObject (.string (some unnamedRequest.query))
    none (some (.ofJson (.object unnamedRequest.variableValues))) :=
  @Request.Body.object [("variables", .ofJson (.object unnamedRequest.variableValues)),
    ("id", .number none), ("query", .string (some unnamedRequest.query))] _ rfl (by decide)

theorem keyed_unnamedRequest : unnamedRequest.Keyed := by
  simp [Request.Keyed, unnamedRequest, Entries.keys, Json.ofInt]

theorem exact_unnamedRequest : unnamedRequest.Exact := by
  have hone : (Json.ofInt 1).Exact := Json.exact_ofInt (by decide) (by decide)
  simp [Request.Exact, unnamedRequest, hone]

end Sample

theorem Request.comes_back_sample :
    Sample.unnamedRequest.Keyed ∧ Sample.unnamedRequest.Exact ∧
    depth (.ofJson Sample.unnamedRequest.toJson) ≤ Json.depthLimit ∧
    ofWritten? (.ofJson Sample.unnamedRequest.toJson) = some Sample.unnamedRequest ∧
    read? Sample.unnamedRequest.text = some Sample.unnamedRequest ∧
    ofWritten? Sample.unnamedArray = some Sample.unnamedRequest ∧
    ofWritten? Sample.unnamedObject = ofWritten? Sample.unnamedArray := by
  obtain ⟨hwritten, hsay, -, -, hsame, -⟩ := comes_back
  obtain ⟨hback, -, htext⟩ := hwritten Sample.unnamedRequest Sample.keyed_unnamedRequest
  have hdepth : depth (.ofJson Sample.unnamedRequest.toJson) ≤ Json.depthLimit := by decide
  have harray : Says Sample.unnamedArray Sample.unnamedRequest :=
    ⟨_, _, Sample.body_unnamedArray, .null, supplies_ofJson Sample.keyed_unnamedRequest⟩
  have hlayouts := hsame _ _ _ _ _ _ _ Sample.body_unnamedObject Sample.body_unnamedArray
    (.none (Or.inl rfl) (Or.inr rfl)) (.refl _)
  exact ⟨Sample.keyed_unnamedRequest, Sample.exact_unnamedRequest, hdepth, hback,
    htext Sample.exact_unnamedRequest hdepth, (hsay _ _).mpr harray, hlayouts⟩

end GraphQL
