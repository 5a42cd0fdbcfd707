import Ap3xSolana.Pumpfun.IdlRoundTrip
import Ap3xSolana.Pumpfun.ProgramDecoder

/-!
# Older layouts

A program appends fields to its events, so an older payload holds the first fields of
today's layout.  It decodes to these; a payload that ends inside a field is malformed, and
becomes one unknown record among the other events of its invocation.
-/

namespace Ap3xSolana.Pumpfun

open Core Lib Lib.Reading Events Filter

/-! ## The decoder on longer data -/

/-- The decoder reads on in the same way when the data do, unless it ran out of them. -/
abbrev Steady {β : Type} (r : Decoder β) : Prop := Stable (· = .eof) r

theorem steady_take (n : Nat) : Steady (take n) :=
  Stable.take (P := fun e => e = IdlError.eof) rfl n

theorem steady_takeByte : Steady takeByte := (steady_take 1).map

theorem steady_takeLength : Steady takeLength := (steady_take 4).map

theorem steady_takeSized : Steady takeSized := steady_takeLength.bind fun n => steady_take n

theorem steady_decodePubkey (bytes : List UInt8) : Steady (decodePubkey bytes) := by
  unfold decodePubkey
  cases PublicKey.fromBytes bytes with
  | ok key => exact Stable.pure _
  | error e => exact Stable.throw _

theorem steady_decodeName (type : String) : Steady (decodeName type) := by
  unfold decodeName
  split
  · exact (steady_take _).map
  · split
    · exact steady_takeByte.map
    · exact (steady_take 32).bind fun bytes => steady_decodePubkey bytes
    · exact steady_takeSized.map
    · exact steady_takeSized.map
    · exact Stable.throw _

variable {decode : IdlType → Decoder IdlValue}

theorem steady_decodeNamed (h : ∀ t, Steady (decode t)) :
    ∀ (fields : List IdlField) (out : String → IdlValue), Steady (decodeNamed decode fields out)
  | [], out => Stable.pure out
  | f :: fields, _ => (h f.type).bind fun _ => steady_decodeNamed h fields _

theorem steady_decodeTuple (h : ∀ t, Steady (decode t)) :
    ∀ ts : List IdlType, Steady (decodeTuple decode ts)
  | [] => Stable.pure []
  | t :: ts => (h t).bind fun _ => (steady_decodeTuple h ts).map

theorem steady_decodeFieldList (h : ∀ t, Steady (decode t)) (fields : Option IdlFields) :
    Steady (decodeFieldList decode fields) := by
  unfold decodeFieldList
  split
  · exact Stable.pure _
  · exact Stable.pure _
  · exact Stable.pure _
  · exact (steady_decodeNamed h _ _).map
  · exact (steady_decodeTuple h _).map

theorem steady_decodeVariant (h : ∀ t, Steady (decode t)) (variant : IdlVariant) :
    Steady (decodeVariant decode variant) := by
  unfold decodeVariant
  split
  · exact Stable.pure _
  · exact (steady_decodeFieldList h _).map

theorem steady_decodeDefined (h : ∀ t, Steady (decode t)) (d : IdlTypeDef) :
    Steady (decodeDefined decode d) := by
  cases d with
  | struct fields => exact steady_decodeFieldList h fields
  | enum variants =>
      refine steady_takeByte.bind fun idx => ?_
      split
      · exact Stable.throw _
      · exact steady_decodeVariant h _

theorem steady_decodeValue (types : String → Option IdlTypeDef) (fuel : Nat) :
    ∀ t, Steady (decodeValue types fuel t) := by
  induction fuel with
  | zero => exact fun t => Stable.throw _
  | succ fuel ih =>
      intro t
      cases t with
      | name type => exact steady_decodeName type
      | vec inner =>
          exact steady_takeLength.bind fun n => (Stable.times (ih inner) n).map
      | option inner =>
          refine steady_takeByte.bind fun tag => ?_
          split
          · exact Stable.pure _
          · exact ih inner
      | array inner n => exact (Stable.times (ih inner) n).map
      | defined name =>
          unfold decodeValue
          split
          · exact Stable.throw _
          · exact steady_decodeDefined ih _

/-! ## Layouts -/

/-- The values of an event's fields, their encodings, and the discriminator that the event is
found by. -/
structure Encoded (schema : IdlProgramEvents) (event : IdlEventSchema) (disc : List UInt8)
    (property : String → IdlValue) (encs : List (List UInt8)) : Prop where
  length : disc.length = 8
  found : schema.events.find? (·.discriminator = toHex disc) = some event
  typed : ∀ f ∈ event.fields, Typed schema.types (.type f.type) (property (camelCase f.name))
  encodes : List.Forall₂ (fun f enc => ∀ᶠ fuel in atTop,
    encodeIdlValue schema.types fuel f.type (property (camelCase f.name)) = .ok enc)
    event.fields encs
  nonempty : ∀ enc ∈ encs, enc ≠ []

/-- An object that has the fields and no others. -/
def restrict (property : String → IdlValue) (fields : List IdlField) : String → IdlValue :=
  fun key => if key ∈ fields.map (fun f => camelCase f.name) then property key else .undefined

/-- The other payloads of the invocation give what each of them alone would. -/
def DecodesAlone (decoder : List (List UInt8) → List (DecoderResult IdlEvent)) :
    List (List UInt8) → List (DecoderResult IdlEvent) → Prop :=
  List.Forall₂ fun data result => decoder [data] = [result]

/-- How the payloads of an event decode that hold a part of its layout. -/
structure DecodesPrefixes (opts : IdlDecoderOptions) (fuel : Nat) (event : IdlEventSchema)
    (disc : List UInt8) (property : String → IdlValue) (encs : List (List UInt8)) : Prop where
  /-- At a boundary, the fields so far. -/
  whole : ∀ k ≤ event.fields.length,
    decodeIdlEvent opts.schema fuel (disc ++ (encs.take k).flatten) =
      .ok (some ⟨event.name, restrict property (event.fields.take k),
        decide (k = event.fields.length)⟩)
  /-- Inside a field, the decoder throws. -/
  inside : ∀ k enc seen, encs[k]? = some enc → seen <+: enc → seen ≠ [] → seen ≠ enc →
    decodeIdlEvent opts.schema fuel (disc ++ (encs.take k).flatten ++ seen) = .error .eof
  /-- And that is one unknown record, in the payload's place. -/
  malformed : ∀ k enc seen, encs[k]? = some enc → seen <+: enc → seen ≠ [] → seen ≠ enc →
    ∀ (chunk : ProgramLogChunk) before after,
      chunk.dataPayloads = before ++ (disc ++ (encs.take k).flatten ++ seen) :: after →
      ∃ rs rs', opts.decodeAll fuel chunk =
          rs ++ .unknown { programId := opts.programId.toBase58, reason := "borsh-parse-error:eof" }
            :: rs' ∧
        DecodesAlone (fun ds => opts.decodeAll fuel { chunk with dataPayloads := ds }) before rs ∧
        DecodesAlone (fun ds => opts.decodeAll fuel { chunk with dataPayloads := ds }) after rs'

theorem eventually_forall₂ {α β : Type} {P : Nat → α → β → Prop} {as : List α} {bs : List β}
    (h : List.Forall₂ (fun a b => ∀ᶠ n in atTop, P n a b) as bs) :
    ∀ᶠ n in atTop, List.Forall₂ (P n) as bs := by
  induction h with
  | nil => exact Eventually.of_forall fun n => .nil
  | cons hab _ ih => exact hab.and ih |>.mono fun n hn => .cons hn.1 hn.2

/-- What the decoder needs to know of the fields. -/
def ReadsFields (decode : IdlType → Decoder IdlValue) (property : String → IdlValue)
    (fields : List IdlField) (encs : List (List UInt8)) : Prop :=
  List.Forall₂ (fun f enc => Reads (decode f.type) enc (property (camelCase f.name)) ∧ enc ≠ [])
    fields encs

theorem Encoded.readsFields {schema : IdlProgramEvents} {event : IdlEventSchema}
    {disc : List UInt8} {property : String → IdlValue} {encs : List (List UInt8)}
    (h : Encoded schema event disc property encs) :
    ∀ᶠ fuel in atTop, ReadsFields (decodeValue schema.types fuel) property event.fields encs := by
  apply eventually_forall₂
  have hall := List.forall₂_iff_zip.1 h.encodes
  refine List.forall₂_iff_zip.2 ⟨hall.1, fun {f enc} hmem => ?_⟩
  have hne := h.nonempty enc (List.of_mem_zip hmem).2
  obtain ⟨bytes, hbytes⟩ := (h.typed f (List.of_mem_zip hmem).1).exists_codes
  refine (hbytes.and (hall.2 hmem)).mono fun fuel hfuel => ⟨?_, hne⟩
  have heq : bytes = enc := Except.ok.inj (hfuel.1.1.symm.trans hfuel.2)
  rw [← heq]
  exact hfuel.1.2

theorem decodeIdlEvent_eq {schema : IdlProgramEvents} {event : IdlEventSchema}
    {disc : List UInt8} (hdisc : disc.length = 8)
    (hfound : schema.events.find? (·.discriminator = toHex disc) = some event) (fuel : Nat)
    (payload : List UInt8) :
    decodeIdlEvent schema fuel (disc ++ payload) =
      (decodePrefix (decodeValue schema.types fuel) event.fields (fun _ => .undefined)
        ⟨payload, 0⟩).map fun result => some ⟨event.name, result.1.1, result.1.2⟩ := by
  have hlong : ¬ (disc ++ payload).length < 8 := by
    rw [List.length_append]
    omega
  unfold decodeIdlEvent
  rw [if_neg hlong, List.take_left' hdisc, List.drop_left' hdisc, hfound]

theorem decodePrefix_whole {property : String → IdlValue} {fields : List IdlField}
    {encs : List (List UInt8)} (h : ReadsFields decode property fields encs) {k : Nat}
    (hk : k ≤ fields.length) :
    decodePrefix decode fields (fun _ => .undefined) ⟨(encs.take k).flatten, 0⟩ =
      .ok ((restrict property (fields.take k), decide (k = fields.length)),
        ⟨(encs.take k).flatten, (encs.take k).flatten.length⟩) := by
  have hread : decodePrefix decode (fields.take k ++ fields.drop k) (fun _ => .undefined)
      ⟨(encs.take k).flatten, 0⟩ = _ := decodePrefix_eq (List.forall₂_take k h) (Cursor.At.start _)
  have hlast : fields.drop k = [] ↔ k = fields.length := by
    rw [List.drop_eq_nil_iff]
    omega
  have hfilled : filled property (fun _ => .undefined) (fields.take k) =
      restrict property (fields.take k) := funext fun key => filled_apply property _ key _
  rw [List.take_append_drop, Nat.zero_add, hfilled, decide_eq_decide.2 hlast] at hread
  exact hread

theorem decodePrefix_inside {property : String → IdlValue} {fields : List IdlField}
    {encs : List (List UInt8)} (h : ReadsFields decode property fields encs)
    (hsteady : ∀ t, Steady (decode t)) {k : Nat} {enc seen : List UInt8}
    (hk : encs[k]? = some enc) (hseen : seen <+: enc) (hnil : seen ≠ []) (hne : seen ≠ enc) :
    decodePrefix decode fields (fun _ => .undefined) ⟨(encs.take k).flatten ++ seen, 0⟩ =
      .error .eof := by
  obtain ⟨hlt, rfl⟩ := List.getElem?_eq_some_iff.1 hk
  have hlt' : k < fields.length := by rwa [h.length_eq]
  have hat : Cursor.At ((encs.take k).flatten ++ seen) 0 ((encs.take k).flatten ++ seen) :=
    Cursor.At.start _
  have hfield : Reads (decode fields[k].type) encs[k] (property (camelCase fields[k].name)) :=
    (List.forall₂_iff_get.1 h).2 k hlt' hlt |>.1
  obtain ⟨e, hthrows, rfl⟩ := (hsteady fields[k].type).starves hfield _ _ seen hseen hne hat.next
  have hread : decodePrefix decode (fields.take k ++ fields.drop k) (fun _ => .undefined) _ = _ :=
    decodePrefix_append (List.forall₂_take k h) hat
  rw [List.take_append_drop] at hread
  rw [hread, List.drop_eq_getElem_cons hlt', decodePrefix, bind_apply, done_of_at hat.next,
    decide_eq_false hnil]
  show (decode fields[k].type >>= _) _ = _
  rw [bind_apply, hthrows]
  rfl

/-! ## Invocations -/

theorem decodeAll_singleton (opts : IdlDecoderOptions) (fuel : Nat) (chunk : ProgramLogChunk)
    (data : List UInt8) :
    opts.decodeAll fuel { chunk with dataPayloads := [data] } =
      [(opts.decodePayload fuel data).getD (.unknown (opts.unrecognised (some data)))] := rfl

theorem decodeAll_malformed {opts : IdlDecoderOptions} {fuel : Nat} {data : List UInt8}
    {e : IdlError} (hthrows : decodeIdlEvent opts.schema fuel data = .error e)
    {chunk : ProgramLogChunk} {before after : List (List UInt8)}
    (hchunk : chunk.dataPayloads = before ++ data :: after) :
    ∃ rs rs', opts.decodeAll fuel chunk =
        rs ++ .unknown (opts.unknown ("borsh-parse-error:" ++ e.message)) :: rs' ∧
      DecodesAlone (fun ds => opts.decodeAll fuel { chunk with dataPayloads := ds }) before rs ∧
      DecodesAlone (fun ds => opts.decodeAll fuel { chunk with dataPayloads := ds }) after rs' := by
  let one : List UInt8 → DecoderResult IdlEvent := fun data =>
    (opts.decodePayload fuel data).getD (.unknown (opts.unrecognised (some data)))
  have halone : ∀ ds, DecodesAlone
      (fun ds => opts.decodeAll fuel { chunk with dataPayloads := ds }) ds (ds.map one) := by
    intro ds
    refine List.forall₂_map_right_iff.2 (List.forall₂_same.2 fun data _ => ?_)
    exact decodeAll_singleton opts fuel chunk data
  have hone : one data = .unknown (opts.unknown ("borsh-parse-error:" ++ e.message)) := by
    show (opts.decodePayload fuel data).getD _ = _
    unfold IdlDecoderOptions.decodePayload
    rw [hthrows]
    rfl
  refine ⟨before.map one, after.map one, ?_, halone before, halone after⟩
  have hne : ¬ chunk.dataPayloads.length = 0 := by
    rw [hchunk, List.length_append, List.length_cons]
    omega
  unfold IdlDecoderOptions.decodeAll
  rw [if_neg hne, hchunk, List.map_append, List.map_cons, ← hone]

/-- **Older layouts decode as prefixes.**  On a call stack that is deep enough, the payloads
of an event decode to the fields that they hold; one that ends inside a field is malformed. -/
theorem layouts_decode_as_prefixes (opts : IdlDecoderOptions) {event : IdlEventSchema}
    {disc : List UInt8} {property : String → IdlValue} {encs : List (List UInt8)}
    (h : Encoded opts.schema event disc property encs) :
    ∃ depth, ∀ fuel, depth ≤ fuel → DecodesPrefixes opts fuel event disc property encs := by
  obtain ⟨depth, hdepth⟩ := eventually_atTop.1 h.readsFields
  refine ⟨depth, fun fuel hfuel => ?_⟩
  have hreads := hdepth fuel hfuel
  have hinside : ∀ k enc seen, encs[k]? = some enc → seen <+: enc → seen ≠ [] → seen ≠ enc →
      decodeIdlEvent opts.schema fuel (disc ++ (encs.take k).flatten ++ seen) =
        .error .eof := by
    intro k enc seen hk hseen hnil hne
    rw [List.append_assoc, decodeIdlEvent_eq h.length h.found,
      decodePrefix_inside hreads (steady_decodeValue opts.schema.types fuel) hk hseen hnil hne]
    rfl
  constructor
  · intro k hk
    rw [decodeIdlEvent_eq h.length h.found, decodePrefix_whole hreads hk]
    rfl
  · exact hinside
  · intro k enc seen hk hseen hnil hne chunk before after hchunk
    exact decodeAll_malformed (hinside k enc seen hk hseen hnil hne) hchunk

/-- An event with two fields. -/
def createEvent : IdlEventSchema where
  name := "CreateEvent"
  discriminator := "0101010101010101"
  fields := [⟨"decimals", .name "u8"⟩, ⟨"is_mayhem_mode", .name "bool"⟩]

def creationDecoder : IdlDecoderOptions where
  programId := .ofByte 7
  schema := { events := [createEvent], types := fun _ => none }
  kindPrefix := .pumpfun
  typed := fun _ => none

def creationFields : String → IdlValue := fun key =>
  if key = "decimals" then intValue 1 6
  else if key = "isMayhemMode" then .bool true
  else .undefined

/-- With the second field and without it. -/
theorem layouts_decode_creation :
    ∃ depth, ∀ fuel, depth ≤ fuel →
      DecodesPrefixes creationDecoder fuel createEvent (List.replicate 8 1) creationFields
        [[6], [1]] := by
  apply layouts_decode_as_prefixes
  constructor
  · rfl
  · decide +kernel
  · intro f hf
    rcases List.mem_pair.1 hf with rfl | rfl
    · have hint : intSizes "u8" = some (1, false) := rfl
      exact .int hint ⟨by decide, by decide⟩
    · exact .bool true
  · refine .cons ?_ (.cons ?_ .nil)
    · exact eventually_of_succ (Eventually.of_forall fun _ => rfl)
    · exact eventually_of_succ (Eventually.of_forall fun _ => rfl)
  · decide

end Ap3xSolana.Pumpfun
