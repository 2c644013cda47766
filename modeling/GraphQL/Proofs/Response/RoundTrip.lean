import Mathlib.Data.List.Nodup
import GraphQL.Proofs.Json.Grammar
import GraphQL.Response.Wire

/-!
# `GraphQL/Proofs/Response/RoundTrip.lean` — responses are read back

A response is written member by member, and what is empty is left out; it is read part by part, and
a part that is not there is empty. The two are written down apart, in two places of the library, and
the theorem is that one undoes the other (`Response.readsBack`). The place where they could come
apart is the data: what is not there is absent, what is null is null, and a response whose data is
an empty object is neither.

For each kind of value that a response is made of there is one lemma, `ofWritten?_ofJson`, from the
places of an error up. They all go through the members: which of them there are
(`Response.get?_members_data` and the like), and that the members that are there are found under
their names (`Json.Written.parts?_ofJson`).
-/

set_option autoImplicit false

namespace GraphQL

/-! ## 1. Members that may be left out -/

namespace Json

theorem get?_memberUnless_append (empty : Bool) (key : String) (value : Json) (rest : Members)
    (name : String) :
    Entries.get? (memberUnless empty key value ++ rest) name =
      if key = name ∧ empty = false then some value else Entries.get? rest name := by
  unfold memberUnless
  cases empty with
  | true => simp
  | false => simp [Entries.get?]

theorem get?_memberUnless (empty : Bool) (key : String) (value : Json) (name : String) :
    Entries.get? (memberUnless empty key value) name =
      if key = name ∧ empty = false then some value else none := by
  have h := get?_memberUnless_append empty key value [] name
  rwa [List.append_nil] at h

theorem exact_of_mem_memberUnless {empty : Bool} {key : String} {value : Json}
    (hx : empty = false → value.Exact) :
    ∀ member ∈ memberUnless empty key value, member.2.Exact := by
  unfold memberUnless
  cases empty with
  | true => exact List.forall_mem_nil _
  | false => exact List.forall_mem_singleton.mpr (hx rfl)

theorem keys_memberUnless_sublist (empty : Bool) (key : String) (value : Json) :
    (Entries.keys (memberUnless empty key value)).Sublist [key] := by
  cases empty with
  | true => exact List.nil_sublist _
  | false => exact List.Sublist.refl _

end Json

namespace Json.Written

theorem mapM_ofMembers {read? : Option String × Written → Option (String × Written)}
    (h : ∀ key value, read? (some key, ofJson value) = some (key, ofJson value))
    (members : Members) :
    (ofMembers members).mapM read? =
      some (members.map fun member => (member.1, ofJson member.2)) := by
  induction members with
  | nil => rfl
  | cons member rest ih =>
    obtain ⟨key, value⟩ := member
    rw [ofMembers, List.mapM_cons, ih, h]
    rfl

/-- The parts of what is written of an object with some of the known names, in their order. -/
theorem parts?_ofJson {members : Members} {names : List String} (hs : members.keys.Sublist names)
    (hn : names.Nodup) (closed : Bool) :
    (ofJson (.object members)).parts? names closed =
      some (names.map fun name => (members.get? name).map ofJson) := by
  have hkeys : (members.map fun member => (member.1, ofJson member.2)).map Prod.fst =
      members.keys := by
    rw [List.map_map]
    rfl
  have hknown : members.keys.any (fun key => !names.contains key) = false := by
    rw [List.any_eq_false]
    intro key hm
    simpa using hs.subset hm
  have honce : names.any (fun name => decide (1 < members.keys.count name)) = false := by
    rw [List.any_eq_false]
    intro name _
    have hle := List.nodup_iff_count_le_one.mp (hs.nodup hn) name
    simpa using hle
  rw [ofJson, parts?, mapM_ofMembers fun _ _ => rfl]
  simp only [Option.bind_eq_bind, Option.bind_some, hkeys, hknown, honce, Bool.and_false,
    Bool.false_eq_true, if_false]
  exact congrArg some (List.map_congr_left fun name _ => Entries.get?_map ofJson members name)

/-- A part that was left out where it was empty is read back. -/
theorem part?_unless {α : Type} {read? : Written → Option α} {missing a : α} {empty : Bool}
    {value : Json} (hm : empty = true → missing = a)
    (hr : empty = false → read? (ofJson value) = some a) :
    part? read? missing ((if empty = false then some value else none).map ofJson) = some a := by
  cases empty with
  | true => exact congrArg some (hm rfl)
  | false => exact hr rfl

/-- A list that was left out where it was empty is read back. -/
theorem part?_unless_isEmpty {α : Type} {read? : Written → Option (List α)} {all : List α}
    {value : Json} (hr : read? (ofJson value) = some all) :
    part? read? [] ((if all.isEmpty = false then some value else none).map ofJson) = some all :=
  part?_unless (fun he => (List.isEmpty_iff.mp he).symm) fun _ => hr

theorem items?_ofJson {α : Type} {read? : Written → Option α} {toJson : α → Json} {all : List α}
    (h : ∀ a ∈ all, read? (ofJson (toJson a)) = some a) :
    items? read? (ofJson (.array (all.map toJson))) = some all := by
  rw [ofJson, items?, ofItems_eq_map, List.map_map]
  induction all with
  | nil => rfl
  | cons a rest ih =>
    rw [List.forall_mem_cons] at h
    rw [List.map_cons, List.mapM_cons, ih h.2, Function.comp_apply, h.1]
    rfl

theorem members?_ofJson {members : Members} (hk : (Json.object members).Keyed) :
    members? (ofJson (.object members)) = some members := by
  rw [members?, keep?_ofJson hk]

end Json.Written

open Json (Written)

/-! ## 2. Places, paths and errors -/

theorem Location.ofWritten?_ofJson (place : Location) :
    ofWritten? (Written.ofJson place.toJson) = some place := by
  have hs : (Entries.keys [("line", Json.ofNat place.line), ("column", .ofNat place.column)]).Sublist
      ["line", "column"] := List.Sublist.refl _
  rw [ofWritten?, toJson, Written.parts?_ofJson hs (by decide)]
  rfl

theorem PathElement.ofWritten?_ofJson (step : PathElement) :
    ofWritten? (Written.ofJson step.toJson) = some step := by
  cases step with
  | field key => rfl
  | index position => rfl

namespace ErrorReport

/-- The members of an error as it is written. -/
def members (report : ErrorReport) : Json.Members :=
  ("message", .string report.message) ::
  Json.memberUnless report.locations.isEmpty "locations"
    (.array (report.locations.map (·.toJson))) ++
  Json.memberUnless report.path.isEmpty "path" (.array (report.path.map (·.toJson))) ++
  Json.memberUnless report.extensions.isEmpty "extensions" (.object report.extensions)

theorem toJson_eq (report : ErrorReport) : report.toJson = .object report.members := rfl

theorem keys_members_sublist (report : ErrorReport) :
    report.members.keys.Sublist ["message", "locations", "path", "extensions"] := by
  unfold members Entries.keys
  rw [List.map_append, List.map_append, List.map_cons]
  have hl := Json.keys_memberUnless_sublist report.locations.isEmpty "locations"
    (.array (report.locations.map (·.toJson)))
  have hp := Json.keys_memberUnless_sublist report.path.isEmpty "path"
    (.array (report.path.map (·.toJson)))
  have he := Json.keys_memberUnless_sublist report.extensions.isEmpty "extensions"
    (.object report.extensions)
  exact ((hl.cons_cons "message").append hp).append he

variable (report : ErrorReport)

theorem get?_members_message : report.members.get? "message" = some (.string report.message) := rfl

theorem get?_members_locations : report.members.get? "locations" =
    if report.locations.isEmpty = false then some (.array (report.locations.map (·.toJson)))
    else none := by
  simp [members, Entries.get?, Json.get?_memberUnless_append, Json.get?_memberUnless]

theorem get?_members_path : report.members.get? "path" =
    if report.path.isEmpty = false then some (.array (report.path.map (·.toJson))) else none := by
  simp [members, Entries.get?, Json.get?_memberUnless_append, Json.get?_memberUnless]

theorem get?_members_extensions : report.members.get? "extensions" =
    if report.extensions.isEmpty = false then some (.object report.extensions) else none := by
  simp [members, Entries.get?, Json.get?_memberUnless_append, Json.get?_memberUnless]

/-- An error is written as an object, and what is empty is left out of it. -/
structure OmitsEmpty (report : ErrorReport) : Prop where
  object : report.toJson = .object report.members
  locations : report.members.get? "locations" = none ↔ report.locations = []
  path : report.members.get? "path" = none ↔ report.path = []
  extensions : report.members.get? "extensions" = none ↔ report.extensions = []

theorem omitsEmpty (report : ErrorReport) : report.OmitsEmpty where
  object := rfl
  locations := by simp [get?_members_locations]
  path := by simp [get?_members_path]
  extensions := by simp [get?_members_extensions]

/-- No key stands twice in the extensions of an error. -/
def Keyed (report : ErrorReport) : Prop :=
  (Json.object report.extensions).Keyed

/-- The numbers in an error are read back from their texts: places and positions because they are
numbers of 64 bits. -/
structure Exact (report : ErrorReport) : Prop where
  locations : ∀ place ∈ report.locations,
    place.line < UInt64.size ∧ place.column < UInt64.size
  path : ∀ position, .index position ∈ report.path → position < UInt64.size
  extensions : (Json.object report.extensions).Exact

variable {report}

theorem exact_toJson (hx : report.Exact) : report.toJson.Exact := by
  have hlocations : (Json.array (report.locations.map (·.toJson))).Exact := by
    refine Json.exact_array_iff.mpr (List.forall_mem_map.mpr fun place hm => ?_)
    obtain ⟨hline, hcolumn⟩ := hx.locations place hm
    simp [Location.toJson, Json.exact_ofNat hline, Json.exact_ofNat hcolumn]
  have hpath : (Json.array (report.path.map (·.toJson))).Exact := by
    refine Json.exact_array_iff.mpr (List.forall_mem_map.mpr fun step hm => ?_)
    cases step with
    | field key => exact .string key
    | index position => exact Json.exact_ofNat (hx.path position hm)
  rw [toJson_eq, Json.exact_object_iff, members, List.forall_mem_append, List.forall_mem_append,
    List.forall_mem_cons]
  exact ⟨⟨⟨.string _, Json.exact_of_mem_memberUnless fun _ => hlocations⟩,
    Json.exact_of_mem_memberUnless fun _ => hpath⟩,
    Json.exact_of_mem_memberUnless fun _ => hx.extensions⟩

theorem ofWritten?_ofJson (hk : report.Keyed) :
    ofWritten? (Written.ofJson report.toJson) = some report := by
  have hlocations : Written.part? (Written.items? Location.ofWritten?) []
      ((report.members.get? "locations").map Written.ofJson) = some report.locations := by
    rw [get?_members_locations]
    exact Written.part?_unless_isEmpty
      (Written.items?_ofJson fun place _ => Location.ofWritten?_ofJson place)
  have hpath : Written.part? (Written.items? PathElement.ofWritten?) []
      ((report.members.get? "path").map Written.ofJson) = some report.path := by
    rw [get?_members_path]
    exact Written.part?_unless_isEmpty
      (Written.items?_ofJson fun step _ => PathElement.ofWritten?_ofJson step)
  have hextensions : Written.part? Written.members? []
      ((report.members.get? "extensions").map Written.ofJson) = some report.extensions := by
    rw [get?_members_extensions]
    exact Written.part?_unless_isEmpty (Written.members?_ofJson hk)
  rw [ofWritten?, toJson_eq, Written.parts?_ofJson report.keys_members_sublist (by decide)]
  simp only [List.map_cons, List.map_nil, get?_members_message, Option.bind_eq_bind,
    Option.bind_some, Option.map_some, hlocations, hpath, hextensions]
  rfl

end ErrorReport

/-! ## 3. Responses -/

theorem ResponseData.ofWritten?_ofJson {data : ResponseData} (ha : data.isAbsent = false)
    (hk : ∀ members, data = .object members → (Json.object members).Keyed) :
    ofWritten? (Written.ofJson data.toJson) = some data := by
  cases data with
  | absent => cases ha
  | null => rfl
  | object members =>
    have hread := Written.members?_ofJson (hk members rfl)
    rw [toJson, ofWritten?, hread]
    · rfl
    · rw [Written.ofJson]
      exact fun h => by cases h

theorem ResponseData.isAbsent_iff {data : ResponseData} : data.isAbsent = true ↔ data = .absent := by
  cases data <;> simp [isAbsent]

namespace Response

/-- The members of a response as it is written. -/
def members (response : Response) : Json.Members :=
  Json.memberUnless response.errors.isEmpty "errors"
    (.array (response.errors.map (·.toJson))) ++
  Json.memberUnless response.data.isAbsent "data" response.data.toJson ++
  Json.memberUnless response.extensions.isEmpty "extensions" (.object response.extensions)

theorem toJson_eq (response : Response) : response.toJson = .object response.members := rfl

theorem keys_members_sublist (response : Response) :
    response.members.keys.Sublist ["errors", "data", "extensions"] := by
  unfold members Entries.keys
  rw [List.map_append, List.map_append]
  have he := Json.keys_memberUnless_sublist response.errors.isEmpty "errors"
    (.array (response.errors.map (·.toJson)))
  have hd := Json.keys_memberUnless_sublist response.data.isAbsent "data" response.data.toJson
  have hx := Json.keys_memberUnless_sublist response.extensions.isEmpty "extensions"
    (.object response.extensions)
  exact (he.append hd).append hx

variable (response : Response)

theorem get?_members_errors : response.members.get? "errors" =
    if response.errors.isEmpty = false then some (.array (response.errors.map (·.toJson)))
    else none := by
  simp [members, Json.get?_memberUnless_append, Json.get?_memberUnless]

theorem get?_members_data : response.members.get? "data" =
    if response.data.isAbsent = false then some response.data.toJson else none := by
  simp [members, Json.get?_memberUnless_append, Json.get?_memberUnless]

theorem get?_members_extensions : response.members.get? "extensions" =
    if response.extensions.isEmpty = false then some (.object response.extensions) else none := by
  simp [members, Json.get?_memberUnless_append, Json.get?_memberUnless]

/-- The numbers in a response are read back from their texts. -/
structure Exact (response : Response) : Prop where
  errors : ∀ report ∈ response.errors, report.Exact
  data : ∀ members, response.data = .object members → (Json.object members).Exact
  extensions : (Json.object response.extensions).Exact

/-- A response is written as an object, what is empty is left out of it, and its data can be told
from what is written: absent, null or an object. -/
structure OmitsEmpty (response : Response) : Prop where
  object : response.toJson = .object response.members
  errors : response.members.get? "errors" = none ↔ response.errors = []
  absent : response.members.get? "data" = none ↔ response.data = .absent
  null : response.members.get? "data" = some .null ↔ response.data = .null
  data : ∀ members, response.members.get? "data" = some (.object members) ↔
    response.data = .object members
  extensions : response.members.get? "extensions" = none ↔ response.extensions = []
  /-- The errors are written as they are by themselves, in order. -/
  reports : response.errors ≠ [] →
    response.members.get? "errors" = some (.array (response.errors.map (·.toJson)))
  report : ∀ report ∈ response.errors, report.OmitsEmpty

theorem omitsEmpty (response : Response) : response.OmitsEmpty where
  object := rfl
  errors := by simp [get?_members_errors]
  absent := by
    rw [get?_members_data]
    cases response.data <;> simp [ResponseData.isAbsent]
  null := by
    rw [get?_members_data]
    cases response.data <;> simp [ResponseData.isAbsent, ResponseData.toJson]
  data members := by
    rw [get?_members_data]
    cases response.data <;> simp [ResponseData.isAbsent, ResponseData.toJson]
  extensions := by simp [get?_members_extensions]
  reports hne := by simp [get?_members_errors, hne]
  report report _ := report.omitsEmpty

/-- No key stands twice in an object of a response. -/
structure Keyed (response : Response) : Prop where
  errors : ∀ report ∈ response.errors, report.Keyed
  data : ∀ members, response.data = .object members → (Json.object members).Keyed
  extensions : (Json.object response.extensions).Keyed

variable {response}

theorem exact_toJson (hx : response.Exact) : response.toJson.Exact := by
  have herrors : (Json.array (response.errors.map (·.toJson))).Exact := by
    refine Json.exact_array_iff.mpr (List.forall_mem_map.mpr fun report hm => ?_)
    exact ErrorReport.exact_toJson (hx.errors report hm)
  have hdata : response.data.toJson.Exact := by
    cases hd : response.data with
    | object members => exact hx.data members hd
    | null => exact .null
    | absent => exact .null
  rw [toJson_eq, Json.exact_object_iff, members, List.forall_mem_append, List.forall_mem_append]
  exact ⟨⟨Json.exact_of_mem_memberUnless fun _ => herrors,
    Json.exact_of_mem_memberUnless fun _ => hdata⟩,
    Json.exact_of_mem_memberUnless fun _ => hx.extensions⟩

theorem ofWritten?_ofJson (hk : response.Keyed) :
    ofWritten? (Written.ofJson response.toJson) = some response := by
  have herrors : Written.part? (Written.items? ErrorReport.ofWritten?) []
      ((response.members.get? "errors").map Written.ofJson) = some response.errors := by
    rw [get?_members_errors]
    exact Written.part?_unless_isEmpty (Written.items?_ofJson fun report hm =>
      ErrorReport.ofWritten?_ofJson (hk.errors report hm))
  have hdata : Written.part? ResponseData.ofWritten? .absent
      ((response.members.get? "data").map Written.ofJson) = some response.data := by
    rw [get?_members_data]
    exact Written.part?_unless (fun ha => (ResponseData.isAbsent_iff.mp ha).symm)
      fun ha => ResponseData.ofWritten?_ofJson ha hk.data
  have hextensions : Written.part? Written.members? []
      ((response.members.get? "extensions").map Written.ofJson) = some response.extensions := by
    rw [get?_members_extensions]
    exact Written.part?_unless_isEmpty (Written.members?_ofJson hk.extensions)
  rw [ofWritten?, toJson_eq, Written.parts?_ofJson response.keys_members_sublist (by decide)]
  simp only [List.map_cons, List.map_nil, Option.bind_eq_bind, Option.bind_some, herrors, hdata,
    hextensions]
  rfl

/-- A response in which no key stands twice is read back from what is written of it, and from its
text, if the numbers in it are read back and it is no deeper than a text may be. What is written of
it is an object without the members that are empty or absent. -/
theorem readsBack (hk : response.Keyed) :
    ofWritten? (Written.ofJson response.toJson) = some response ∧
      (response.Exact → (Written.ofJson response.toJson).depth ≤ Json.depthLimit →
        read? response.text = some response) ∧
      response.OmitsEmpty := by
  refine ⟨ofWritten?_ofJson hk, fun hx hd => ?_, response.omitsEmpty⟩
  rw [read?, text, Written.read?_text (exact_toJson hx)]
  exact (if_pos hd).trans (ofWritten?_ofJson hk)

end Response

/-! ## 4. A response to look at -/

namespace Sample

/-- A response with null for data, an error with a path into a list, and extensions. -/
def failedResponse : Response where
  errors := [{
    message := "no \"way\"\n"
    locations := [{ line := 1, column := 12 }, .start]
    path := [.field "items", .index 0, .field "0"]
    extensions := [("code", .string "E"), ("at", .array [.null, .object []])] }]
  data := .null
  extensions := [("cost", .object [("used", .ofInt (-3)), ("exact", .boolean true)])]

theorem keyed_failedResponse : failedResponse.Keyed where
  errors report hm := by
    cases List.mem_singleton.mp hm
    refine .object (by decide) ?_
    rw [List.forall_mem_cons, List.forall_mem_singleton]
    exact ⟨.string _, by simp [Entries.keys]⟩
  data members hd := by cases hd
  extensions := by simp [failedResponse, Entries.keys, Json.ofInt]

theorem exact_failedResponse : failedResponse.Exact where
  errors report hm := by
    cases List.mem_singleton.mp hm
    refine ⟨?_, ?_, by simp⟩
    · decide
    · intro position hp
      have hzero : position = 0 := by simpa using hp
      subst hzero
      decide
  data members hd := by cases hd
  extensions := by
    have hused : (Json.ofInt (-3)).Exact := Json.exact_ofInt (by decide) (by decide)
    simp [failedResponse, hused]

end Sample

theorem Response.readsBack_sample : Sample.failedResponse.Keyed ∧ Sample.failedResponse.Exact ∧
    (Written.ofJson Sample.failedResponse.toJson).depth ≤ Json.depthLimit ∧
    read? Sample.failedResponse.text = some Sample.failedResponse := by
  have hd : (Written.ofJson Sample.failedResponse.toJson).depth ≤ Json.depthLimit := by decide
  exact ⟨Sample.keyed_failedResponse, Sample.exact_failedResponse, hd,
    (readsBack Sample.keyed_failedResponse).2.1 Sample.exact_failedResponse hd⟩

end GraphQL
