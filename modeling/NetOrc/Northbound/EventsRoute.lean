import NetOrc.Northbound.NorthBoundInterface

/-!
This module contains the handler of `POST /events` with its header fields, and shows which requests it
answers as its type parameter asks for. The response is taken as the handler leaves it.
-/

namespace NetOrc

open Oflib
open TextFormat

/-! The header fields of the HTTP server. -/

def isFieldVchar (b : UInt8) : Bool := (33 ≤ b && b ≤ 126) || 128 ≤ b

def isFieldValue (value : Bytes) : Bool :=
  match value with
  | [] => true
  | b :: rest =>
    isFieldVchar b
      && match rest.getLast? with
        | none => true
        | some last =>
          rest.dropLast.all (fun c => c = space || c = tab || isFieldVchar c) && isFieldVchar last

/--
A header field of a request. `parse_header` refuses every other value.
-/
structure HeaderField where
  name : Bytes
  value : Bytes
  isFieldValue : isFieldValue value

def toLower (b : UInt8) : UInt8 := if 0x41 ≤ b ∧ b ≤ 0x5A then b + 0x20 else b

/--
The fields stand in the order in which the multimap of the request is iterated over, which is not that of
the request where two of them have the same name.
-/
def getHeaderValue (headers : List HeaderField) (key : Bytes) : Bytes :=
  match headers.find? (fun field => field.name.map toLower = key.map toLower) with
  | some field => field.value
  | none => []

structure HttpResponse where
  status : Int32 := -1
  body : Bytes := []
  headers : List (Bytes × Bytes) := []
  deriving DecidableEq, Repr

def HttpResponse.setHeader (res : HttpResponse) (key value : Bytes) : HttpResponse :=
  if isFieldValue value then { res with headers := res.headers ++ [(key, value)] } else res

def HttpResponse.setContent (res : HttpResponse) (body contentType : Bytes) : HttpResponse :=
  ({ res with
    body := body
    headers := res.headers.filter (fun field => field.1 ≠ text "Content-Type") } : HttpResponse).setHeader
      (text "Content-Type") contentType

theorem isFieldValue_getHeaderValue (headers : List HeaderField) (key : Bytes) :
    isFieldValue (getHeaderValue headers key) := by
  unfold getHeaderValue
  split
  . next field _ => exact field.isFieldValue
  . rfl

theorem isFieldValue_of_all {value : Bytes} (h : ∀ b ∈ value, isFieldVchar b) : isFieldValue value := by
  match value with
  | [] => rfl
  | b :: rest =>
    rw [isFieldValue.eq_def]
    dsimp only
    rw [h b (by simp), Bool.true_and]
    split
    . rfl
    . next last hlast =>
      have hmem : last ∈ rest := List.mem_of_getLast? hlast
      rw [h last (by simp [hmem]), Bool.and_true, List.all_eq_true]
      intro c hc
      rw [h c (by simp [List.mem_of_mem_dropLast hc]), Bool.or_true]

/-! The request id. -/

def makeRequestId (random : UInt64) : Bytes :=
  (Nat.toDigits 16 random.toNat).map (fun c => .ofNat c.toNat)

theorem exists_digitChar_of_mem_toDigits {base n : Nat} (hbase : 0 < base) {c : Char}
    (h : c ∈ Nat.toDigits base n) : ∃ d < base, c = Nat.digitChar d := by
  have hcore : ∀ fuel n ds, (∀ c ∈ ds, ∃ d < base, c = Nat.digitChar d) →
      ∀ c ∈ Nat.toDigitsCore base fuel n ds, ∃ d < base, c = Nat.digitChar d := by
    intro fuel
    induction fuel with
    | zero =>
      intro n ds hds
      exact hds
    | succ fuel ih =>
      intro n ds hds
      have hcons : ∀ c ∈ Nat.digitChar (n % base) :: ds, ∃ d < base, c = Nat.digitChar d := by
        intro c hc
        rcases List.mem_cons.mp hc with rfl | hc
        . exact ⟨n % base, Nat.mod_lt n hbase, rfl⟩
        . exact hds c hc
      rw [Nat.toDigitsCore]
      split
      . exact hcons
      . exact ih _ _ hcons
  exact hcore _ n [] (by simp) c h

theorem isFieldVchar_digitChar : ∀ d < 16, isFieldVchar (.ofNat (Nat.digitChar d).toNat) := by decide

theorem isFieldValue_makeRequestId (random : UInt64) : isFieldValue (makeRequestId random) := by
  apply isFieldValue_of_all
  intro b hb
  rcases List.mem_map.mp hb with ⟨c, hc, rfl⟩
  rcases exists_digitChar_of_mem_toDigits (by decide) hc with ⟨d, hd, rfl⟩
  exact isFieldVchar_digitChar d hd

theorem makeRequestId_ne_nil (random : UInt64) : makeRequestId random ≠ [] := by
  rw [makeRequestId, ne_eq, List.map_eq_nil_iff]
  exact Nat.toDigits_ne_nil

/-! The handler. -/

structure PostedEvents where
  request : EventsRequest := {}
  headers : List HeaderField := []

def requestIdKey : Bytes := text "X-Request-Id"

def requestIdOf (req : PostedEvents) (random : UInt64) : Bytes :=
  let requestId := getHeaderValue req.headers requestIdKey
  if requestId = [] then makeRequestId random else requestId

def postEvents (req : PostedEvents) (random : UInt64) : Option EventTask × HttpResponse :=
  let requestId := requestIdOf req random
  let res := ({} : HttpResponse).setHeader requestIdKey requestId
  match req.request.packetType with
  | none =>
    (none, ({ res with status := 400 } : HttpResponse).setContent
      (text "\x7b\"error\":\"invalid type query parameter\"\x7d") (text "application/json"))
  | some type =>
    (some ⟨type, req.request.body⟩, ({ res with status := 202 } : HttpResponse).setContent
      (text "\x7b\"queued\":true\x7d") (text "application/json"))

theorem requestIdOf_ne_nil (req : PostedEvents) (random : UInt64) : requestIdOf req random ≠ [] := by
  unfold requestIdOf
  dsimp only
  split
  . exact makeRequestId_ne_nil random
  . next hown => exact hown

theorem isFieldValue_requestIdOf (req : PostedEvents) (random : UInt64) :
    isFieldValue (requestIdOf req random) := by
  unfold requestIdOf
  dsimp only
  split
  . exact isFieldValue_makeRequestId random
  . exact isFieldValue_getHeaderValue req.headers requestIdKey

theorem postEvents_eq (req : PostedEvents) (random : UInt64) :
    postEvents req random
      =
    (req.request.handle.1, ⟨req.request.handle.2.status, req.request.handle.2.body,
      [(requestIdKey, requestIdOf req random), (text "Content-Type", text "application/json")]⟩) := by
  have hset : ({} : HttpResponse).setHeader requestIdKey (requestIdOf req random)
      = { headers := [(requestIdKey, requestIdOf req random)] } :=
    if_pos (isFieldValue_requestIdOf req random)
  unfold postEvents EventsRequest.handle
  dsimp only
  rw [hset]
  cases req.request.packetType with
  | none => rfl
  | some type => rfl

theorem postEvents_task (req : PostedEvents) (random : UInt64) :
    (postEvents req random).1
      =
    req.request.packetType.map (fun type => ⟨type, req.request.body⟩) := by
  unfold postEvents
  cases req.request.packetType with
  | none => rfl
  | some type => rfl

/-! What the type parameter asks for. -/

/--
A decimal numeral up to 255, or no parameter at all.
-/
def askedType (param : Option Bytes) : Option PacketType :=
  match param with
  | none => some .vendor
  | some param => (numeral param).bind (fun n => if n ≤ 255 then some ⟨.ofNat n⟩ else none)

def ReadsType (param : Bytes) : Prop :=
  ∃ negative n, ReadsNumber param negative n ∧ 0 ≤ signed negative n ∧ signed negative n ≤ 255

theorem packetType_ne_none_iff (param body : Bytes) (ranges : List Range) :
    EventsRequest.packetType ⟨some param, body, ranges⟩ ≠ none ↔ ReadsType param := by
  have hsome : EventsRequest.packetType ⟨some param, body, ranges⟩ ≠ none
      ↔ ∃ i, stoi param = some i ∧ 0 ≤ i ∧ i ≤ 255 := by
    unfold EventsRequest.packetType
    dsimp only
    cases stoi param with
    | none => simp
    | some i =>
      simp only [Option.bind_some, Option.some.injEq, exists_eq_left']
      split
      . next hrange => simp only [ne_eq, not_true_eq_false, false_iff]; omega
      . next hrange => simp only [ne_eq, reduceCtorEq, not_false_eq_true, true_iff]; omega
  rw [hsome]
  constructor
  . rintro ⟨i, hi, hlo, hhi⟩
    rcases (stoi_eq_some_iff param i).mp hi with ⟨negative, n, hreads, rfl, _⟩
    exact ⟨negative, n, hreads, hlo, hhi⟩
  . rintro ⟨negative, n, hreads, hlo, hhi⟩
    refine ⟨signed negative n, ?_, hlo, hhi⟩
    apply (stoi_eq_some_iff param _).mpr
    exact ⟨negative, n, hreads, rfl, by omega, by omega⟩

theorem packetType_of_numeral {param : Bytes} {n : Nat} (h : numeral param = some n) (body : Bytes)
    (ranges : List Range) :
    EventsRequest.packetType ⟨some param, body, ranges⟩ = askedType (some param) := by
  have hsigned : signed false n = n := rfl
  unfold EventsRequest.packetType askedType
  dsimp only
  rw [stoi_of_reads (readsNumber_of_numeral h), hsigned, h, Option.bind_some]
  by_cases hn : n ≤ 255
  . rw [if_pos (by omega), Option.bind_some, if_neg (by omega), if_pos hn, Int.toNat_natCast]
  . rw [if_neg hn]
    split
    . rw [Option.bind_some, if_pos (by omega)]
    . rfl

theorem packetType_eq_askedType_iff (req : EventsRequest) :
    req.packetType = askedType req.type
      ↔
    ∀ param, req.type = some param → ReadsType param → ∀ b ∈ param, isDigit b := by
  rcases req with ⟨type, body, ranges⟩
  cases type with
  | none => simp [EventsRequest.packetType, askedType]
  | some param =>
    simp only [Option.some.injEq, forall_eq']
    cases hnumeral : numeral param with
    | some n =>
      have hdigits := (numeral_eq_some hnumeral).2
      simp only [packetType_of_numeral hnumeral, true_iff]
      exact fun _ => hdigits
    | none =>
      have hasked : askedType (some param) = none := by rw [askedType, hnumeral]; rfl
      have hnone : param ≠ [] → ¬∀ b ∈ param, isDigit b := by
        intro hparam hdigits
        have hsome := (numeral_isSome_iff param).mpr ⟨hparam, hdigits⟩
        rw [hnumeral] at hsome
        contradiction
      rw [hasked, ← packetType_ne_none_iff param body ranges]
      constructor
      . intro htype hne
        contradiction
      . intro h
        by_contra hne
        apply hnone _ (h hne)
        rintro rfl
        apply hne
        rfl

/--
A request is accepted exactly if its parameter asks for a type, with one task that carries the type and
the body, and the response repeats the id of the request, or gets a fresh one.
-/
structure AnswersAsAsked (req : PostedEvents) (random : UInt64) : Prop where
  accepted : ∀ type, askedType req.request.type = some type →
    (postEvents req random).2.status = 202 ∧ (postEvents req random).1 = some ⟨type, req.request.body⟩
  refused : askedType req.request.type = none →
    (postEvents req random).2.status = 400 ∧ (postEvents req random).1 = none
  requestId : ∃ id, (postEvents req random).2.headers.filter (fun field => field.1 = requestIdKey)
      = [(requestIdKey, id)]
    ∧ id ≠ []
    ∧ (getHeaderValue req.headers requestIdKey ≠ [] → id = getHeaderValue req.headers requestIdKey)

/--
The handler does so exactly if a parameter that starts with the number of a type, for `stoi`, has nothing
but digits.
-/
theorem answersAsAsked_iff (req : PostedEvents) (random : UInt64) :
    AnswersAsAsked req random
      ↔
    ∀ param, req.request.type = some param → ReadsType param → ∀ b ∈ param, isDigit b := by
  rw [← packetType_eq_askedType_iff]
  constructor
  . intro h
    have htask : (postEvents req random).1
        = (askedType req.request.type).map (fun type => ⟨type, req.request.body⟩) := by
      cases hasked : askedType req.request.type with
      | none => exact (h.refused hasked).2
      | some type => exact (h.accepted type hasked).2
    have hinj : Function.Injective (fun type => (⟨type, req.request.body⟩ : EventTask)) := by
      intro type type' heq
      injection heq
    rw [postEvents_task] at htask
    exact Option.map_injective hinj htask
  . intro htype
    refine ⟨?_, ?_, requestIdOf req random, ?_, requestIdOf_ne_nil req random, ?_⟩
    . intro type hasked
      rw [postEvents_eq, EventsRequest.handle, htype, hasked]
      exact ⟨rfl, rfl⟩
    . intro hasked
      rw [postEvents_eq, EventsRequest.handle, htype, hasked]
      exact ⟨rfl, rfl⟩
    . rw [postEvents_eq]
      rfl
    . intro hown
      exact if_neg hown

/--
`12abc`, and `+5` behind a blank, are accepted.
-/
theorem not_answersAsAsked :
    let accepted (param : Bytes) : Prop :=
      ∀ random, (postEvents { request := { type := some param } } random).2.status = 202
        ∧ ¬AnswersAsAsked { request := { type := some param } } random
    accepted (text "12abc") ∧ accepted (text " +5") := by
  have haccepted : ∀ param ∈ [text "12abc", text " +5"], askedType (some param) = none
      ∧ (EventsRequest.handle { type := some param }).2.status = 202 := by decide
  have hstatus : ∀ param ∈ [text "12abc", text " +5"], ∀ random,
      (postEvents { request := { type := some param } } random).2.status = 202
        ∧ ¬AnswersAsAsked { request := { type := some param } } random := by
    intro param hparam random
    have hpost : (postEvents { request := { type := some param } } random).2.status = 202 := by
      rw [postEvents_eq]
      exact (haccepted param hparam).2
    refine ⟨hpost, fun h => ?_⟩
    have hrefused := (h.refused (haccepted param hparam).1).1
    rw [hpost] at hrefused
    revert hrefused
    decide
  exact ⟨hstatus _ (by simp), hstatus _ (by simp)⟩

end NetOrc
