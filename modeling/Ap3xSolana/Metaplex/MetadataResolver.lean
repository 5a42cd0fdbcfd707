import Ap3xSolana.Lib.Json
import Ap3xSolana.Lib.RecentlyUsed
import Ap3xSolana.Lib.Run
import Ap3xSolana.Lib.Table
import Mathlib.Data.Set.Function
import Mathlib.Tactic.IntervalCases

/-!
# `MetadataResolver`

`resolve` looks into the memory cache, then into the file cache, and then asks the network; it
awaits the network only, so any number of fetches of one URI can be under way.  A response is
put into memory and written to the file; a write that fails may leave the file as it was, or
cut short.  `restart` is a new resolver over the same directory.

The memory cache holds the URIs answered last (`resolve_memory_iff`).  What a cache gives is
what the network once answered for the URI, and the latest answer but for those whose file
could not be opened (`resolve_stored`).
-/

namespace Ap3xSolana.Metaplex

open Ap3xSolana.Lib
open Ap3xSolana.Lib.RecentlyUsed
open Ap3xSolana.Lib.Run
open Ap3xSolana.Lib.Table

/-! ## The shape of a document -/

structure MetadataAttribute where
  traitType : String
  /-- `undefined` where the entry has no `value`. -/
  value : Option Json

structure ParsedMetadata where
  name : String
  symbol : Option String := none
  description : Option String := none
  image : Option String := none
  attributes : Option (List MetadataAttribute) := none

/-- An optional field that has to be a string. -/
def optionalString (obj : Json) (name : String) : Option String × List String :=
  match obj.field name with
  | none => (none, [])
  | some (.string s) => (some s, [])
  | some _ => (none, [s!"{name} must be a string"])

def attributeOf (entry : Json) : Option MetadataAttribute :=
  match entry.field "trait_type" with
  | some (.string traitType) => some { traitType := traitType, value := entry.field "value" }
  | _ => none

/-- The loop over the entries; the first argument counts them. -/
def attributesFrom : Nat → List Json → List MetadataAttribute × List String
  | _, [] => ([], [])
  | i, entry :: rest =>
      let (kept, errors) := attributesFrom (i + 1) rest
      match attributeOf entry with
      | some trait => (trait :: kept, errors)
      | none => (kept, s!"attributes[{i}] malformed" :: errors)

def attributesOf (obj : Json) : Option (List MetadataAttribute) × List String :=
  match obj.field "attributes" with
  | none => (none, [])
  | some (.array entries) =>
      let (kept, errors) := attributesFrom 0 entries
      (if kept.isEmpty then none else some kept, errors)
  | some _ => (none, ["attributes must be an array"])

def extractShape (value : Json) : Option ParsedMetadata × List String :=
  match value with
  | .object _ =>
      let (symbol, symbolErrors) := optionalString value "symbol"
      let (description, descriptionErrors) := optionalString value "description"
      let (image, imageErrors) := optionalString value "image"
      let (attributes, attributeErrors) := attributesOf value
      let errors := symbolErrors ++ descriptionErrors ++ imageErrors ++ attributeErrors
      match value.field "name" with
      | some (.string name) =>
          (some { name := name, symbol := symbol, description := description, image := image,
                  attributes := attributes }, errors)
      | _ => (none, "missing name" :: errors)
  | _ => (none, ["root is not a JSON object"])

theorem attributesFrom_errors (i : Nat) (entries : List Json) :
    (attributesFrom i entries).2 =
      ((entries.zipIdx i).filter fun e => (attributeOf e.1).isNone).map
        fun e => s!"attributes[{e.2}] malformed" := by
  induction entries generalizing i with
  | nil => rfl
  | cons entry rest ih =>
      simp only [attributesFrom, List.zipIdx_cons, List.filter_cons]
      cases attributeOf entry <;> simp [ih]

/-- A document that has what it should, each part of the right type. -/
structure WellFormed (value : Json) : Prop where
  name : ∃ name, value.field "name" = some (.string name)
  optional : ∀ field ∈ ["symbol", "description", "image"],
    value.field field = none ∨ ∃ s, value.field field = some (.string s)
  attributes : value.field "attributes" = none ∨ ∃ entries,
    value.field "attributes" = some (.array entries) ∧
      ∀ entry ∈ entries, ∃ trait, entry.field "trait_type" = some (.string trait)

theorem optionalString_clean {obj : Json} {name : String} :
    (optionalString obj name).2 = [] ↔
      obj.field name = none ∨ ∃ s, obj.field name = some (.string s) := by
  unfold optionalString
  split <;> simp_all

theorem attributeOf_isSome {entry : Json} :
    (attributeOf entry).isSome ↔ ∃ trait, entry.field "trait_type" = some (.string trait) := by
  unfold attributeOf
  split <;> simp_all

theorem attributesOf_clean {obj : Json} :
    (attributesOf obj).2 = [] ↔ obj.field "attributes" = none ∨ ∃ entries,
      obj.field "attributes" = some (.array entries) ∧
        ∀ entry ∈ entries, ∃ trait, entry.field "trait_type" = some (.string trait) := by
  simp only [← attributeOf_isSome]
  unfold attributesOf
  split
  · next h => simp [h]
  · next entries h =>
      have hall : (∀ e ∈ entries.zipIdx, (attributeOf e.1).isSome) ↔
          ∀ entry ∈ entries, (attributeOf entry).isSome := by
        refine ⟨fun hz entry hentry => ?_, fun hentries e he =>
          hentries e.1 (List.fst_mem_of_mem_zipIdx he)⟩
        obtain ⟨j, hj⟩ := List.mem_iff_getElem?.1 hentry
        exact hz (entry, j) (List.mk_mem_zipIdx_iff_getElem?.2 hj)
      have hnone : (∀ e ∈ entries.zipIdx, ¬ (attributeOf e.1).isNone = true) ↔
          ∀ e ∈ entries.zipIdx, (attributeOf e.1).isSome := by
        simp [Option.isSome_iff_ne_none]
      rw [attributesFrom_errors, List.map_eq_nil_iff, List.filter_eq_nil_iff, hnone, hall]
      simp [h]
  · next hnone harray => simp_all

def nameErrors (obj : Json) : List String :=
  match obj.field "name" with
  | some (.string _) => []
  | _ => ["missing name"]

theorem nameErrors_clean {obj : Json} :
    nameErrors obj = [] ↔ ∃ name, obj.field "name" = some (.string name) := by
  unfold nameErrors
  split <;> simp_all

theorem extractShape_object (fields : List (String × Json)) :
    (extractShape (.object fields)).2 =
      nameErrors (.object fields) ++
        ((optionalString (.object fields) "symbol").2 ++
          (optionalString (.object fields) "description").2 ++
          (optionalString (.object fields) "image").2 ++ (attributesOf (.object fields)).2) := by
  simp only [extractShape, nameErrors]
  split <;> rfl

/-- Nothing is reported exactly where nothing is wrong. -/
theorem extractShape_clean_iff (value : Json) :
    (extractShape value).2 = [] ↔ WellFormed value := by
  cases value with
  | object fields =>
      rw [extractShape_object]
      simp only [List.append_eq_nil_iff, nameErrors_clean, optionalString_clean,
        attributesOf_clean]
      constructor
      · rintro ⟨hname, ⟨⟨hsymbol, hdescription⟩, himage⟩, hattributes⟩
        exact ⟨hname, by simp [hsymbol, hdescription, himage], hattributes⟩
      · rintro ⟨hname, hoptional, hattributes⟩
        exact ⟨hname, ⟨⟨hoptional _ (by simp), hoptional _ (by simp)⟩, hoptional _ (by simp)⟩,
          hattributes⟩
  | _ =>
      refine iff_of_false (by simp [extractShape]) ?_
      rintro ⟨⟨name, hname⟩, -, -⟩
      cases hname

/-! ## The resolver -/

inductive MetadataSource where
  | network
  | memoryCache
  | fileCache
  deriving DecidableEq, Repr

structure ResolvedMetadata where
  /-- The parsed document, or the text as it came. -/
  raw : Json
  parsed : Option ParsedMetadata := none
  parseErrors : Option (List String) := none
  source : MetadataSource
  fetchedAt : String

structure FileCacheRecord where
  raw : Json
  parsed : Option ParsedMetadata
  parseErrors : Option (List String)
  fetchedAt : String

/-- What the resolver takes from the runtime. -/
structure Runtime where
  parseJson : String → Except String Json
  /-- The SHA-256 of a URI, in hex. -/
  hash : String → String
  stringify : FileCacheRecord → List Char
  /-- None where `JSON.parse` throws, or the value is no record. -/
  parseRecord : List Char → Option FileCacheRecord

structure MetadataResolverOptions where
  cacheSize : Int := 1000
  /-- Is a `fileCacheDir` given? -/
  fileCache : Bool := false
  deriving DecidableEq, Repr

/-- What the network answered, and how many characters of it reached the file: none where the
file could not be opened. -/
structure Answer where
  uri : String
  text : String
  fetchedAt : String
  written : Option Nat
  deriving DecidableEq, Repr

inductive Call where
  | fetching (uri : String)
  | answered (uri : String) (result : ResolvedMetadata)
  | threw (uri : String)
  | lost (uri : String)

structure MetadataResolver where
  memoryCache : OrderedMap String ResolvedMetadata := .empty
  files : String → Option (List Char) := fun _ => none
  calls : List Call := []
  /-- What the network has answered. -/
  answers : List Answer := []
  /-- The URIs answered since the memory cache was last empty. -/
  uses : List String := []

inductive Action where
  | resolve (uri : String)
  | response (call : Nat) (text fetchedAt : String) (written : Option Nat)
  | fail (call : Nat)
  | clearCache
  | restart
  deriving DecidableEq, Repr

/-- The URIs that are asked for, and the documents, with their times, that come back. -/
def Action.Within (uris : Set String) (documents : Set (String × String)) : Action → Prop
  | .resolve uri => uri ∈ uris
  | .response _ text fetchedAt _ => (text, fetchedAt) ∈ documents
  | _ => True

section
variable (rt : Runtime) (opts : MetadataResolverOptions)

def buildResult (text fetchedAt : String) : ResolvedMetadata :=
  match rt.parseJson text with
  | .error message =>
      { raw := .string text, parseErrors := some [s!"invalid JSON: {message}"],
        source := .network, fetchedAt := fetchedAt }
  | .ok value =>
      let (extracted, errors) := extractShape value
      { raw := value, parsed := extracted,
        parseErrors := if errors.isEmpty then none else some errors,
        source := .network, fetchedAt := fetchedAt }

def putInMemory (cache : OrderedMap String ResolvedMetadata) (uri : String)
    (value : ResolvedMetadata) : OrderedMap String ResolvedMetadata :=
  evict opts.cacheSize (toEnd cache uri value)

def readFromFileCache (files : String → Option (List Char)) (uri : String) :
    Option ResolvedMetadata :=
  if opts.fileCache then do
    let text ← files (rt.hash uri)
    let record ← rt.parseRecord text
    some { raw := record.raw, parsed := record.parsed, parseErrors := record.parseErrors,
           source := .fileCache, fetchedAt := record.fetchedAt }
  else none

def recordOf (value : ResolvedMetadata) : FileCacheRecord :=
  { raw := value.raw, parsed := value.parsed, parseErrors := value.parseErrors,
    fetchedAt := value.fetchedAt }

def writeToFileCache (files : String → Option (List Char)) (uri : String)
    (value : ResolvedMetadata) (written : Option Nat) : String → Option (List Char) :=
  if opts.fileCache then
    match written with
    | none => files
    | some size =>
        Function.update files (rt.hash uri) (some ((rt.stringify (recordOf value)).take size))
  else files

def resolve (st : MetadataResolver) (uri : String) : MetadataResolver :=
  match st.memoryCache.get? uri with
  | some memHit =>
      { st with
        memoryCache := toEnd st.memoryCache uri memHit
        calls := st.calls ++ [.answered uri { memHit with source := .memoryCache }]
        uses := st.uses ++ [uri] }
  | none =>
      match readFromFileCache rt opts st.files uri with
      | some fileHit =>
          { st with
            memoryCache := putInMemory opts st.memoryCache uri fileHit
            calls := st.calls ++ [.answered uri { fileHit with source := .fileCache }]
            uses := st.uses ++ [uri] }
      | none => { st with calls := st.calls ++ [.fetching uri] }

def response (st : MetadataResolver) (i : Nat) (uri text fetchedAt : String)
    (written : Option Nat) : MetadataResolver :=
  let result := buildResult rt text fetchedAt
  { memoryCache := putInMemory opts st.memoryCache uri result
    files := writeToFileCache rt opts st.files uri result written
    calls := st.calls.set i (.answered uri result)
    answers := st.answers ++
      [{ uri := uri, text := text, fetchedAt := fetchedAt, written := written }]
    uses := st.uses ++ [uri] }

def Call.dropped : Call → Call
  | .fetching uri => .lost uri
  | c => c

def step (st : MetadataResolver) : Action → Option MetadataResolver
  | .resolve uri => some (resolve rt opts st uri)
  | .response i text fetchedAt written =>
      match st.calls[i]? with
      | some (.fetching uri) => some (response rt opts st i uri text fetchedAt written)
      | _ => none
  | .fail i =>
      match st.calls[i]? with
      | some (.fetching uri) => some { st with calls := st.calls.set i (.threw uri) }
      | _ => none
  | .clearCache => some { st with memoryCache := .empty, uses := [] }
  | .restart =>
      some { st with
        memoryCache := .empty
        calls := st.calls.map Call.dropped
        uses := [] }

end

/-! ## What should hold -/

/-- The result is what the network answered for the URI, in an answer that no later one
replaces, unless the file of the later one could not be opened. -/
def Stored (rt : Runtime) (answers : List Answer) (uri : String) (result : ResolvedMetadata) :
    Prop :=
  ∃ before a after, answers = before ++ a :: after ∧ a.uri = uri ∧
    result = { buildResult rt a.text a.fetchedAt with source := result.source } ∧
    ∀ b ∈ after, b.uri = uri → b.written = none

/-- What a step answers is `Stored`. -/
def AnswersStored (rt : Runtime) (st : MetadataResolver) (_ : Action) (st' : MetadataResolver) :
    Prop :=
  ∀ (i : Nat) uri result, st'.calls[i]? = some (.answered uri result) →
    (∀ result', st.calls[i]? ≠ some (.answered uri result')) → Stored rt st'.answers uri result

/-- What the runtime does with the URIs and documents that occur. -/
structure Sound (rt : Runtime) (uris : Set String) (documents : Set (String × String)) :
    Prop where
  hash : Set.InjOn rt.hash uris
  record : ∀ d ∈ documents, rt.parseRecord (rt.stringify (recordOf (buildResult rt d.1 d.2))) =
    some (recordOf (buildResult rt d.1 d.2))
  /-- A record that is cut short has lost its closing brace. -/
  torn : ∀ d ∈ documents, ∀ size < (rt.stringify (recordOf (buildResult rt d.1 d.2))).length,
    rt.parseRecord ((rt.stringify (recordOf (buildResult rt d.1 d.2))).take size) = none

/-! ## The invariant -/

structure CachesOk (rt : Runtime) (opts : MetadataResolverOptions) (uris : Set String)
    (st : MetadataResolver) : Prop where
  memory : ∀ uri result, st.memoryCache.get? uri = some result →
    Stored rt st.answers uri result
  file : opts.fileCache = true → ∀ uri ∈ uris, ∀ text record,
    st.files (rt.hash uri) = some text → rt.parseRecord text = some record →
    ∀ source, Stored rt st.answers uri
      { raw := record.raw, parsed := record.parsed, parseErrors := record.parseErrors,
        source := source, fetchedAt := record.fetchedAt }
  fetching : ∀ (i : Nat) uri, st.calls[i]? = some (.fetching uri) → uri ∈ uris

variable {rt : Runtime} {opts : MetadataResolverOptions} {uris : Set String}
variable {documents : Set (String × String)}

theorem cachesOk_init : CachesOk rt opts uris {} where
  memory := fun uri result h => by rw [OrderedMap.get?_empty] at h; cases h
  file := fun _ _ _ _ _ h => by cases h
  fetching := fun _ _ h => by cases h

theorem Stored.withSource {answers : List Answer} {uri : String} {result : ResolvedMetadata}
    (h : Stored rt answers uri result) (source : MetadataSource) :
    Stored rt answers uri { result with source := source } := by
  obtain ⟨before, a, after, hsplit, huri, hresult, hlater⟩ := h
  exact ⟨before, a, after, hsplit, huri, by rw [hresult], hlater⟩

/-- An answer for another URI, or one whose file could not be opened, leaves it stored. -/
theorem Stored.append {answers : List Answer} {uri : String} {result : ResolvedMetadata}
    (h : Stored rt answers uri result) {b : Answer} (hb : b.uri = uri → b.written = none) :
    Stored rt (answers ++ [b]) uri result := by
  obtain ⟨before, a, after, hsplit, huri, hresult, hlater⟩ := h
  refine ⟨before, a, after ++ [b], by rw [hsplit, List.append_assoc, List.cons_append], huri,
    hresult, fun c hc => ?_⟩
  rcases List.mem_append.1 hc with hold | hnew
  · exact hlater c hold
  · rw [List.mem_singleton.1 hnew]
    exact hb

theorem stored_last (answers : List Answer) (b : Answer) :
    Stored rt (answers ++ [b]) b.uri (buildResult rt b.text b.fetchedAt) :=
  ⟨answers, b, [], rfl, rfl, rfl, fun _ h => absurd h List.not_mem_nil⟩

theorem get?_putInMemory {cache : OrderedMap String ResolvedMetadata} {uri uri' : String}
    {value result : ResolvedMetadata}
    (h : (putInMemory opts cache uri value).get? uri' = some result) :
    uri' = uri ∧ result = value ∨ uri' ≠ uri ∧ cache.get? uri' = some result := by
  have hget := get?_evict h
  rw [get?_toEnd] at hget
  split at hget
  · next heq => exact .inl ⟨heq, (Option.some.inj hget).symm⟩
  · next hne => exact .inr ⟨hne, hget⟩

theorem CachesOk.fileHit {st : MetadataResolver} (h : CachesOk rt opts uris st)
    {uri : String} (huri : uri ∈ uris) {hit : ResolvedMetadata}
    (hhit : readFromFileCache rt opts st.files uri = some hit) : Stored rt st.answers uri hit := by
  unfold readFromFileCache at hhit
  split at hhit
  · next hon =>
      simp only [Option.bind_eq_bind, Option.bind_eq_some_iff] at hhit
      obtain ⟨text, htext, record, hrecord, heq⟩ := hhit
      rw [← Option.some.inj heq]
      exact h.file hon uri huri text record htext hrecord .fileCache
  · cases hhit

/-! ## The steps -/

theorem step_response_eq_some {st st' : MetadataResolver} {i : Nat} {text fetchedAt : String}
    {written : Option Nat} (h : step rt opts st (.response i text fetchedAt written) = some st') :
    ∃ uri, st.calls[i]? = some (.fetching uri) ∧
      st' = response rt opts st i uri text fetchedAt written := by
  simp only [step] at h
  split at h
  · next uri hcall => exact ⟨uri, hcall, (Option.some.inj h).symm⟩
  · cases h

theorem step_fail_eq_some {st st' : MetadataResolver} {i : Nat}
    (h : step rt opts st (.fail i) = some st') :
    ∃ uri, st.calls[i]? = some (.fetching uri) ∧
      st' = { st with calls := st.calls.set i (.threw uri) } := by
  simp only [step] at h
  split at h
  · next uri hcall => exact ⟨uri, hcall, (Option.some.inj h).symm⟩
  · cases h

theorem CachesOk.resolve {st : MetadataResolver} (h : CachesOk rt opts uris st) {uri : String}
    (huri : uri ∈ uris) : CachesOk rt opts uris (resolve rt opts st uri) := by
  have hfetching : ∀ (c : Call), (∀ u, c = .fetching u → u ∈ uris) →
      ∀ (i : Nat) u, (st.calls ++ [c])[i]? = some (.fetching u) → u ∈ uris := by
    intro c hc i u hcall
    rw [getElem?_added] at hcall
    split at hcall
    · exact hc u (Option.some.inj hcall)
    · exact h.fetching i u hcall
  unfold Metaplex.resolve
  cases hmem : st.memoryCache.get? uri with
  | some memHit =>
      refine ⟨fun u result hget => ?_, h.file, hfetching _ fun u hu => by cases hu⟩
      rw [get?_toEnd] at hget
      split at hget
      · next heq =>
          cases hget
          rw [heq]
          exact h.memory uri memHit hmem
      · exact h.memory u result hget
  | none =>
      dsimp only
      cases hfile : readFromFileCache rt opts st.files uri with
      | some fileHit =>
          refine ⟨fun u result hget => ?_, h.file, hfetching _ fun u hu => by cases hu⟩
          rcases get?_putInMemory hget with ⟨rfl, rfl⟩ | ⟨-, hold⟩
          · exact h.fileHit huri hfile
          · exact h.memory u result hold
      | none =>
          exact ⟨h.memory, h.file, hfetching _ fun u hu => by cases hu; exact huri⟩

/-- A file holds the last record that was written to it, cut short or not. -/
theorem CachesOk.file_response (hsound : Sound rt uris documents) {st : MetadataResolver}
    (h : CachesOk rt opts uris st) (hon : opts.fileCache = true) {b : Answer}
    (hb : b.uri ∈ uris) (hdoc : (b.text, b.fetchedAt) ∈ documents) {u : String} (hu : u ∈ uris)
    {text : List Char}
    {record : FileCacheRecord}
    (htext : writeToFileCache rt opts st.files b.uri (buildResult rt b.text b.fetchedAt)
      b.written (rt.hash u) = some text)
    (hrecord : rt.parseRecord text = some record) (source : MetadataSource) :
    Stored rt (st.answers ++ [b]) u
      { raw := record.raw, parsed := record.parsed, parseErrors := record.parseErrors,
        source := source, fetchedAt := record.fetchedAt } := by
  cases hwritten : b.written with
  | none =>
      rw [hwritten, writeToFileCache, if_pos hon] at htext
      exact (h.file hon u hu text record htext hrecord source).append fun _ => hwritten
  | some size =>
      rw [hwritten, writeToFileCache, if_pos hon] at htext
      by_cases hsame : u = b.uri
      · rw [hsame] at htext
        rw [Function.update_self] at htext
        cases htext
        have hsize :
            (rt.stringify (recordOf (buildResult rt b.text b.fetchedAt))).length ≤ size := by
          by_contra hlt
          rw [hsound.torn _ hdoc size (Nat.lt_of_not_le hlt)] at hrecord
          cases hrecord
        rw [List.take_of_length_le hsize, hsound.record _ hdoc] at hrecord
        cases hrecord
        exact hsame ▸ (stored_last st.answers b).withSource source
      · have hne : rt.hash u ≠ rt.hash b.uri := fun heq => hsame (hsound.hash hu hb heq)
        rw [Function.update_of_ne hne] at htext
        exact (h.file hon u hu text record htext hrecord source).append
          fun heq => absurd heq.symm hsame

theorem CachesOk.response (hsound : Sound rt uris documents) {st : MetadataResolver}
    (h : CachesOk rt opts uris st) {i : Nat} {uri : String}
    (hcall : st.calls[i]? = some (.fetching uri)) {text fetchedAt : String}
    (hdoc : (text, fetchedAt) ∈ documents) (written : Option Nat) :
    CachesOk rt opts uris (response rt opts st i uri text fetchedAt written) where
  memory := by
    intro u result hget
    rcases get?_putInMemory hget with ⟨rfl, rfl⟩ | ⟨hne, hold⟩
    · exact stored_last st.answers
        { uri := u, text := text, fetchedAt := fetchedAt, written := written }
    · exact (h.memory u result hold).append fun heq => absurd heq.symm hne
  file := fun hon u hu _ _ htext hrecord source =>
    h.file_response hsound hon
      (b := { uri := uri, text := text, fetchedAt := fetchedAt, written := written })
      (h.fetching i uri hcall) hdoc hu htext hrecord source
  fetching := by
    intro j u hj
    rw [show (Metaplex.response rt opts st i uri text fetchedAt written).calls =
      st.calls.set i _ from rfl, getElem?_replaced hcall] at hj
    split at hj
    · cases hj
    · exact h.fetching j u hj

theorem CachesOk.emptied {st : MetadataResolver} (h : CachesOk rt opts uris st)
    {calls : List Call} (hcalls : ∀ (i : Nat) u, calls[i]? = some (.fetching u) → u ∈ uris) :
    CachesOk rt opts uris { st with memoryCache := .empty, calls := calls, uses := [] } where
  memory := fun u result hget => by rw [OrderedMap.get?_empty] at hget; cases hget
  file := h.file
  fetching := hcalls

theorem step_cachesOk (hsound : Sound rt uris documents) {st st' : MetadataResolver} {a : Action}
    (h : CachesOk rt opts uris st) (hwithin : a.Within uris documents)
    (hstep : step rt opts st a = some st') : CachesOk rt opts uris st' := by
  cases a with
  | resolve uri =>
      cases hstep
      exact h.resolve hwithin
  | response i text fetchedAt written =>
      obtain ⟨uri, hcall, rfl⟩ := step_response_eq_some hstep
      exact h.response hsound hcall hwithin written
  | fail i =>
      obtain ⟨uri, hcall, rfl⟩ := step_fail_eq_some hstep
      refine ⟨h.memory, h.file, fun j u hj => ?_⟩
      rw [getElem?_replaced hcall] at hj
      split at hj
      · cases hj
      · exact h.fetching j u hj
  | clearCache =>
      cases hstep
      exact h.emptied h.fetching
  | restart =>
      cases hstep
      refine h.emptied fun i u hi => ?_
      rw [List.getElem?_map, Option.map_eq_some_iff] at hi
      obtain ⟨c, -, hc⟩ := hi
      cases c <;> cases hc

/-- The new call is the last. -/
theorem answered_last {calls : List Call} {c : Call} {i : Nat} {uri : String}
    {result : ResolvedMetadata} (h : (calls ++ [c])[i]? = some (.answered uri result))
    (hnew : ∀ result', calls[i]? ≠ some (.answered uri result')) : c = .answered uri result := by
  rw [getElem?_added] at h
  split at h
  · exact Option.some.inj h
  · exact absurd h (hnew result)

theorem CachesOk.resolve_answers {st : MetadataResolver} (h : CachesOk rt opts uris st)
    {uri : String} (huri : uri ∈ uris) :
    AnswersStored rt st (.resolve uri) (Metaplex.resolve rt opts st uri) := by
  intro i u result hcall hnew
  unfold Metaplex.resolve at hcall ⊢
  cases hmem : st.memoryCache.get? uri with
  | some memHit =>
      rw [hmem] at hcall
      cases answered_last hcall hnew
      exact (h.memory uri memHit hmem).withSource .memoryCache
  | none =>
      rw [hmem] at hcall
      dsimp only at hcall ⊢
      cases hfile : readFromFileCache rt opts st.files uri with
      | some fileHit =>
          rw [hfile] at hcall
          cases answered_last hcall hnew
          exact (h.fileHit huri hfile).withSource .fileCache
      | none =>
          rw [hfile] at hcall
          cases answered_last hcall hnew

/-- What a step answers comes from a cache, or from the network just now. -/
theorem CachesOk.answersStored {st st' : MetadataResolver} {a : Action}
    (h : CachesOk rt opts uris st) (hwithin : a.Within uris documents)
    (hstep : step rt opts st a = some st') : AnswersStored rt st a st' := by
  cases a with
  | resolve uri =>
      cases hstep
      exact h.resolve_answers hwithin
  | response i text fetchedAt written =>
      intro j u result hcall hnew
      obtain ⟨uri, hfetching, rfl⟩ := step_response_eq_some hstep
      change (st.calls.set i _)[j]? = _ at hcall
      rw [getElem?_replaced hfetching] at hcall
      split at hcall
      · cases hcall
        exact stored_last st.answers
          { uri := u, text := text, fetchedAt := fetchedAt, written := written }
      · exact absurd hcall (hnew result)
  | fail i =>
      intro j u result hcall hnew
      obtain ⟨uri, hfetching, rfl⟩ := step_fail_eq_some hstep
      rw [getElem?_replaced hfetching] at hcall
      split at hcall
      · cases hcall
      · exact absurd hcall (hnew result)
  | clearCache =>
      intro j u result hcall hnew
      cases hstep
      exact absurd hcall (hnew result)
  | restart =>
      intro j u result hcall hnew
      cases hstep
      rw [List.getElem?_map, Option.map_eq_some_iff] at hcall
      obtain ⟨c, hc, hdropped⟩ := hcall
      cases c with
      | answered u' result' =>
          cases hdropped
          exact absurd hc (hnew result)
      | _ => cases hdropped

/-! ## What the memory cache holds -/

theorem keys_putInMemory (cache : OrderedMap String ResolvedMetadata) (uri : String)
    (value : ResolvedMetadata) {uses : List String}
    (h : cache.keys = recent opts.cacheSize.toNat uses) :
    (putInMemory opts cache uri value).keys = recent opts.cacheSize.toNat (uses ++ [uri]) := by
  rw [putInMemory, keys_evict, keys_toEnd, h, recent_concat]

/-- A hit is one of the keys already, so that moving it to the end evicts nothing. -/
theorem keys_hit (cache : OrderedMap String ResolvedMetadata) (uri : String)
    (value : ResolvedMetadata) {uses : List String}
    (h : cache.keys = recent opts.cacheSize.toNat uses) (hmem : uri ∈ cache.keys) :
    (toEnd cache uri value).keys = recent opts.cacheSize.toNat (uses ++ [uri]) := by
  have hle : cache.keys.length ≤ opts.cacheSize.toNat := by
    rw [h, RecentlyUsed.recent, length_rtake]
    exact Nat.min_le_left _ _
  have hlength : (cache.keys.filter (· ≠ uri)).length + 1 ≤ cache.keys.length :=
    List.length_filter_lt_length_iff_exists.2 ⟨uri, hmem, by simp⟩
  rw [keys_toEnd, recent_concat, ← h, rtake_of_length_le]
  rw [List.length_append, List.length_singleton]
  omega

theorem mem_keys_of_get? {cache : OrderedMap String ResolvedMetadata} {uri : String}
    {value : ResolvedMetadata} (h : cache.get? uri = some value) : uri ∈ cache.keys := by
  by_contra hnot
  rw [OrderedMap.get?_eq_none.2 hnot] at h
  cases h

theorem step_recent {st st' : MetadataResolver} {a : Action}
    (h : st.memoryCache.keys = recent opts.cacheSize.toNat st.uses)
    (hstep : step rt opts st a = some st') :
    st'.memoryCache.keys = recent opts.cacheSize.toNat st'.uses := by
  cases a with
  | resolve uri =>
      cases hstep
      unfold resolve
      cases hmem : st.memoryCache.get? uri with
      | some memHit => exact keys_hit _ uri memHit h (mem_keys_of_get? hmem)
      | none =>
          dsimp only
          cases readFromFileCache rt opts st.files uri with
          | some fileHit => exact keys_putInMemory _ uri fileHit h
          | none => exact h
  | response i text fetchedAt written =>
      obtain ⟨uri, -, rfl⟩ := step_response_eq_some hstep
      exact keys_putInMemory _ uri _ h
  | fail i =>
      obtain ⟨uri, -, rfl⟩ := step_fail_eq_some hstep
      exact h
  | clearCache =>
      cases hstep
      exact (recent_nil _).symm
  | restart =>
      cases hstep
      exact (recent_nil _).symm

/-! ## A runtime for two documents -/

/-- `JSON.parse` knows one document, and the records of the two documents below. -/
def demo : Runtime where
  parseJson text := if text = "[]" then .ok (.array []) else .error "Unexpected token"
  hash uri := uri
  stringify record := record.fetchedAt.toList ++ [';']
  parseRecord text :=
    if text = "10:00;".toList then
      some { raw := .string "<html>", parsed := none,
             parseErrors := some ["invalid JSON: Unexpected token"], fetchedAt := "10:00" }
    else if text = "10:05;".toList then
      some { raw := .array [], parsed := none,
             parseErrors := some ["root is not a JSON object"], fetchedAt := "10:05" }
    else none

def demoDocuments : Set (String × String) := {("<html>", "10:00"), ("[]", "10:05")}

theorem demo_sound : Sound demo {"ipfs://a", "ipfs://b"} demoDocuments where
  hash := fun _ _ _ _ h => h
  record := by
    rintro d (rfl | rfl) <;> rfl
  torn := by
    rintro d (rfl | rfl) size hsize
    · have hsize : size < 6 := hsize
      interval_cases size <;> rfl
    · have hsize : size < 6 := hsize
      interval_cases size <;> rfl

/-- The file of the first URI is cut short, and both are asked for again after a restart. -/
def demoRun : List Action :=
  [.resolve "ipfs://a", .resolve "ipfs://b", .response 0 "<html>" "10:00" (some 3),
    .response 1 "[]" "10:05" (some 6), .restart, .resolve "ipfs://a", .resolve "ipfs://b"]

/-! ## Runs -/

/-- A call is answered from memory exactly if its URI is among the `cacheSize` that were
answered last since the cache was cleared. -/
theorem resolve_memory_iff (rt : Runtime) (opts : MetadataResolverOptions) (acts : List Action)
    (st : MetadataResolver) (hrun : exec (step rt opts) {} acts = some st) (uri : String) :
    (∃ result, (resolve rt opts st uri).calls = st.calls ++ [.answered uri result] ∧
      result.source = .memoryCache) ↔ uri ∈ recent opts.cacheSize.toNat st.uses := by
  have hinit : (OrderedMap.empty : OrderedMap String ResolvedMetadata).keys =
      recent opts.cacheSize.toNat [] := (recent_nil _).symm
  have hkeys : st.memoryCache.keys = recent opts.cacheSize.toNat st.uses :=
    exec_inv (fun _ _ _ h hstep => step_recent h hstep) (s := {}) hinit hrun
  rw [← hkeys]
  unfold resolve
  cases hmem : st.memoryCache.get? uri with
  | some memHit => exact ⟨fun _ => mem_keys_of_get? hmem, fun _ => ⟨_, rfl, rfl⟩⟩
  | none =>
      refine iff_of_false ?_ (OrderedMap.get?_eq_none.1 hmem)
      rintro ⟨result, hcalls, hsource⟩
      dsimp only at hcalls
      cases hfile : readFromFileCache rt opts st.files uri with
      | some fileHit =>
          rw [hfile] at hcalls
          have hresult := List.append_cancel_left hcalls
          cases hresult
          cases hsource
      | none =>
          rw [hfile] at hcalls
          have hresult := List.append_cancel_left hcalls
          cases hresult

/-- With room for one URI, the second answer evicts the first. -/
theorem resolve_memory_iff_demo :
    ∃ st, exec (step demo { cacheSize := 1 }) {} (demoRun.take 4) = some st ∧
      ¬ ∃ result, (resolve demo { cacheSize := 1 } st "ipfs://a").calls =
        st.calls ++ [.answered "ipfs://a" result] ∧ result.source = .memoryCache := by
  refine ⟨_, rfl, fun h => ?_⟩
  have hrecent := (resolve_memory_iff demo { cacheSize := 1 } (demoRun.take 4) _ rfl
    "ipfs://a").1 h
  exact absurd hrecent (by decide)

/-- Whatever is under way at the same time, evicted, cleared or restarted, and wherever writes
of files fail: an answer is what the network answered for this URI. -/
theorem resolve_stored (rt : Runtime) (opts : MetadataResolverOptions) (uris : Set String)
    (documents : Set (String × String)) (hsound : Sound rt uris documents)
    (acts : List Action) (hwithin : ∀ a ∈ acts, a.Within uris documents) :
    ∀ pre a post st st', acts = pre ++ a :: post → exec (step rt opts) {} pre = some st →
      step rt opts st a = some st' → AnswersStored rt st a st' := by
  rintro pre a post st st' rfl hrun hstep
  have hcaches : CachesOk rt opts uris st :=
    exec_inv_of (fun _ _ _ h ha hstep => step_cachesOk hsound h ha hstep) cachesOk_init
      (fun b hb => hwithin b (List.mem_append_left _ hb)) hrun
  exact hcaches.answersStored (hwithin a (List.mem_append_right _ List.mem_cons_self)) hstep

theorem resolve_stored_demo :
    ∃ st st', exec (step demo { fileCache := true }) {} (demoRun.take 6) = some st ∧
      step demo { fileCache := true } st (.resolve "ipfs://b") = some st' ∧
      (∃ result, st'.calls[3]? = some (.answered "ipfs://b" result) ∧
        result.source = .fileCache) ∧
      AnswersStored demo st (.resolve "ipfs://b") st' :=
  ⟨_, _, rfl, rfl, ⟨_, rfl, rfl⟩,
    resolve_stored demo { fileCache := true } {"ipfs://a", "ipfs://b"} demoDocuments demo_sound
      demoRun (by simp [demoRun, Action.Within, demoDocuments]) (demoRun.take 6) _ [] _ _ rfl rfl
      rfl⟩

end Ap3xSolana.Metaplex
