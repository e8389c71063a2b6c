import Stakit.ExceptLoops
import Stakit.PostgresBroker
import Stakit.PostgresEnvelope
import Stakit.PubsubFrames

set_option autoImplicit false

namespace Stakit.PostgresBroker
open JsonText (IsRaw trim isRaw_writeObject)
open RouterError PubsubFrames

/-- The full envelope length for a publish of `payload` on `topic`. -/
def publishLen (topic payload : String) : ℕ :=
  envelopeOverhead + "\x7b\"p\":\x7b\"topic\":,\"p\":\x7d\x7d".utf8ByteSize +
    (quote topic).utf8ByteSize + payload.utf8ByteSize

def validate (topic payload : String) : Except Error Unit := checkLen (publishLen topic payload)

section
variable (values : ValueCodec) (hmac : List UInt8 → String → Vector UInt8 32)

/-- `wire::raw`: the payload as a raw value, without the space around it. -/
def rawPayload (payload : String) : Except Error (RawValue values.json) :=
  match readRaw values (trim payload.toList) with
  | some p => .ok p
  | none => .error (badRequest "invalid parameters")

/-- `send` up to the outbox, which may be full. -/
def sendBody (key : Key) (origin counter time : ℕ) (full : Bool) (body : Body values.json) :
    Except Error Unit := do
  let _ ← sealText (serde values hmac) key origin counter time body
  if full then throw backlogFull

def publish (key : Key) (origin counter time : ℕ) (full : Bool) (topic payload : String) :
    Except Error Unit := do
  let p ← rawPayload values payload
  sendBody values hmac key origin counter time full (.publish topic p)

/-- The part of `call` before it waits for the answer. -/
def call (key : Key) (origin counter time : ℕ) (full : Bool) (id : ℕ) (topic payload : String) :
    Except Error Unit := do
  let p ← rawPayload values payload
  sendBody values hmac key origin counter time full (.call id topic p)

/-- `Hub::publish`: whether this node's subscribers got it, and the result. -/
def hubPublish (key : Key) (origin counter time : ℕ) (full : Bool) (topic payload : String) :
    Bool × Except Error Unit :=
  match validate topic payload with
  | .error error => (false, .error error)
  | .ok () => (true, publish values hmac key origin counter time full topic payload)

end

/-- The payload of `Hub::publish` and of a device call. -/
def hubPayload (name : String) (params : List Char) : String :=
  String.ofList (publishPayload name params)

theorem isRaw_hubPayload (name : String) (params : List Char) (hparams : IsRaw params) :
    IsRaw (hubPayload name params).toList := by
  have hname : JsonText.Plain "name".toList := by decide
  have hparamsKey : JsonText.Plain "params".toList := by decide
  have hwritten : IsRaw (publishPayload name params) := by
    rw [publishPayload_eq]
    refine SerdeJson.isRaw_written _ fun entry hentry => ?_
    rw [List.mem_cons, List.mem_singleton] at hentry
    rcases hentry with rfl | rfl
    · exact ⟨hname, isRaw_pushJsonStr name⟩
    · exact ⟨hparamsKey, hparams⟩
  rw [hubPayload, String.toList_ofList]
  exact hwritten

theorem rawPayload_isRaw (values : ValueCodec) (payload : String) (hraw : IsRaw payload.toList) :
    ∃ p : RawValue values.json, rawPayload values payload = .ok p ∧ p.text = payload := by
  have hvalid : values.json.valid (String.ofList payload.toList) = true := by
    rw [String.ofList_toList]
    exact decide_eq_true hraw
  refine ⟨⟨_, hvalid⟩, ?_, String.ofList_toList⟩
  rw [rawPayload, hraw.trim, readRaw, dif_pos hvalid]

theorem publish_length {json : Json} (topic : String) (p : RawValue json) :
    envelopeOverhead + (bodyText (.publish topic p)).utf8ByteSize = publishLen topic p.text := by
  have hwhole : "\x7b\"p\":\x7b\"topic\":,\"p\":\x7d\x7d".utf8ByteSize = 21 := by decide
  have hhead : "\x7b\"p\":\x7b\"topic\":".utf8ByteSize = 14 := by decide
  have hmiddle : ",\"p\":".utf8ByteSize = 5 := by decide
  have hclose : "\x7d\x7d".utf8ByteSize = 2 := by decide
  unfold bodyText publishLen
  simp only [String.utf8ByteSize_append, hwhole, hhead, hmiddle, hclose]
  omega

theorem call_length {json : Json} (id : ℕ) (topic : String) (p : RawValue json) :
    envelopeOverhead + (bodyText (.call id topic p)).utf8ByteSize =
      publishLen topic p.text + (6 + (toString id).utf8ByteSize) := by
  have hwhole : "\x7b\"p\":\x7b\"topic\":,\"p\":\x7d\x7d".utf8ByteSize = 21 := by decide
  have hhead : "\x7b\"c\":\x7b\"id\":".utf8ByteSize = 11 := by decide
  have htopic : ",\"topic\":".utf8ByteSize = 9 := by decide
  have hmiddle : ",\"p\":".utf8ByteSize = 5 := by decide
  have hclose : "\x7d\x7d".utf8ByteSize = 2 := by decide
  unfold bodyText publishLen
  simp only [String.utf8ByteSize_append, hwhole, hhead, htopic, hmiddle, hclose]
  omega

example : publishLen "t" "1" = 177 := by decide +kernel

theorem checkLen_eq_ok (len : ℕ) : checkLen len = .ok () ↔ len ≤ maxNotifyBytes := by
  unfold checkLen
  split
  · exact iff_of_false nofun (by omega)
  · exact iff_of_true rfl (by omega)

section
variable (values : ValueCodec) (hmac : List UInt8 → String → Vector UInt8 32)

variable (key : Key) (origin counter time : ℕ) (full : Bool) (id : ℕ) (topic : String)
  {payload : String}

theorem sealText_eq_ok (body : Body values.json) :
    (∃ text, sealText (serde values hmac) key origin counter time body = .ok text) ↔
      envelopeOverhead + (bodyText body).utf8ByteSize ≤ maxNotifyBytes := by
  rw [← checkLen_eq_ok]
  unfold sealText
  split
  · next herror =>
    rw [herror]
    exact iff_of_false (fun ⟨_, h⟩ => by cases h) nofun
  · next hok => exact iff_of_true ⟨_, rfl⟩ hok

theorem sendBody_eq_ok (body : Body values.json) :
    sendBody values hmac key origin counter time false body = .ok () ↔
      envelopeOverhead + (bodyText body).utf8ByteSize ≤ maxNotifyBytes := by
  rw [← sealText_eq_ok values hmac key origin counter time body]
  unfold sendBody
  cases sealText (serde values hmac) key origin counter time body with
  | error error => exact iff_of_false nofun (fun ⟨_, h⟩ => by cases h)
  | ok text => exact iff_of_true rfl ⟨text, rfl⟩

theorem publish_eq {p : RawValue values.json} (hp : rawPayload values payload = .ok p) :
    publish values hmac key origin counter time full topic payload =
      sendBody values hmac key origin counter time full (.publish topic p) := by
  have hpublish : publish values hmac key origin counter time full topic payload =
      rawPayload values payload >>= fun p =>
        sendBody values hmac key origin counter time full (.publish topic p) := rfl
  rw [hpublish, hp]
  exact pure_bind p _

theorem call_eq {p : RawValue values.json} (hp : rawPayload values payload = .ok p) :
    call values hmac key origin counter time full id topic payload =
      sendBody values hmac key origin counter time full (.call id topic p) := by
  unfold call
  rw [hp]
  rfl

theorem publish_eq_ok (hraw : IsRaw payload.toList) :
    publish values hmac key origin counter time false topic payload = .ok () ↔
      publishLen topic payload ≤ maxNotifyBytes := by
  obtain ⟨p, hp, htext⟩ := rawPayload_isRaw values payload hraw
  have hlength := publish_length topic p
  rw [htext] at hlength
  rw [← hlength, publish_eq values hmac key origin counter time false topic hp]
  exact sendBody_eq_ok values hmac key origin counter time (.publish topic p)

theorem call_eq_ok (hraw : IsRaw payload.toList) :
    call values hmac key origin counter time false id topic payload = .ok () ↔
      publishLen topic payload + (6 + (toString id).utf8ByteSize) ≤ maxNotifyBytes := by
  obtain ⟨p, hp, htext⟩ := rawPayload_isRaw values payload hraw
  have hlength := call_length id topic p
  rw [htext] at hlength
  rw [← hlength, call_eq values hmac key origin counter time false id topic hp]
  exact sendBody_eq_ok values hmac key origin counter time (.call id topic p)

theorem hubPublish_delivered (hraw : IsRaw payload.toList) {error : Error}
    (h : hubPublish values hmac key origin counter time full topic payload = (true, .error error)) :
    error = backlogFull := by
  unfold hubPublish at h
  split at h
  · cases h
  · next hvalid =>
    have hfits := (publish_eq_ok values hmac key origin counter time topic hraw).mpr
      ((checkLen_eq_ok _).mp hvalid)
    cases full with
    | false =>
      rw [hfits] at h
      cases h
    | true =>
      have hresult := (Prod.mk.inj h).2
      obtain ⟨p, hp, -⟩ := rawPayload_isRaw values payload hraw
      rw [publish_eq values hmac key origin counter time _ topic hp] at hfits hresult
      unfold sendBody at hfits hresult
      rw [ExceptLoops.bind_eq_ok] at hfits
      obtain ⟨text, hseal, -⟩ := hfits
      rw [hseal] at hresult
      exact (Except.error.inj hresult).symm

/-- What passes the check before delivery is sealed: a publish always, and no publish that was
delivered here is refused for its size; a device call exactly when its length as a publish is not
within its id and `"id":,` of the limit. -/
theorem precheck_agrees_iff (name : String) (params : List Char) (id : ℕ) (hparams : IsRaw params) :
    ((∀ origin counter time, validate topic (hubPayload name params) = .ok () ↔
        publish values hmac key origin counter time false topic (hubPayload name params) = .ok ()) ∧
      (∀ origin counter time full error,
        hubPublish values hmac key origin counter time full topic (hubPayload name params) =
          (true, .error error) → error.code ≠ 413) ∧
      ∀ origin counter time, validate topic (hubPayload name params) = .ok () →
        call values hmac key origin counter time false id topic (hubPayload name params) = .ok ()) ↔
    ¬(publishLen topic (hubPayload name params) ≤ maxNotifyBytes ∧
      maxNotifyBytes < publishLen topic (hubPayload name params) +
        (6 + (toString id).utf8ByteSize)) := by
  have hraw := isRaw_hubPayload name params hparams
  have hcall (origin counter time : ℕ) := call_eq_ok values hmac key origin counter time id topic
    hraw
  have hvalid : validate topic (hubPayload name params) = .ok () ↔ _ := checkLen_eq_ok _
  constructor
  · rintro ⟨-, -, hcalls⟩ ⟨hfits, hover⟩
    have hsealed := (hcall 0 0 0).mp (hcalls 0 0 0 (hvalid.mpr hfits))
    omega
  · intro hapart
    refine ⟨fun origin counter time => ?_, fun origin counter time full error h => ?_,
      fun origin counter time hpassed => ?_⟩
    · rw [hvalid, publish_eq_ok values hmac key origin counter time topic hraw]
    · rw [hubPublish_delivered values hmac key origin counter time full topic hraw h]
      decide
    · have hfits := hvalid.mp hpassed
      refine (hcall origin counter time).mpr ?_
      omega

end

def zeroTag (_ : List UInt8) (_ : String) : Vector UInt8 32 := Vector.replicate 32 0

theorem precheck_agrees_short : ¬(publishLen "t" (hubPayload "n" "1".toList) ≤ maxNotifyBytes ∧
      maxNotifyBytes < publishLen "t" (hubPayload "n" "1".toList) +
        (6 + (toString 5).utf8ByteSize)) ∧
    (validate "t" (hubPayload "n" "1".toList) = .ok () →
      call literals zeroTag busKey 1 0 0 false 5 "t" (hubPayload "n" "1".toList) = .ok ()) := by
  have hraw : IsRaw "1".toList := by
    unfold IsRaw
    decide +kernel
  have happart : ¬(publishLen "t" (hubPayload "n" "1".toList) ≤ maxNotifyBytes ∧
      maxNotifyBytes < publishLen "t" (hubPayload "n" "1".toList) +
        (6 + (toString 5).utf8ByteSize)) := by decide +kernel
  exact ⟨happart, ((precheck_agrees_iff literals zeroTag busKey "t" "n" "1".toList 5 hraw).mpr
    happart).2.2 1 0 0⟩

def letters (n : ℕ) : List Char := '"' :: (List.replicate n 'a' ++ ['"'])

theorem isRaw_letters (n : ℕ) : IsRaw (letters n) := by
  have hquoted : letters n = JsonText.quoted escapeJson (List.replicate n 'a') := by
    have hescape : escapeJson 'a' = ['a'] := by decide
    have hsame : (List.replicate n 'a').flatMap escapeJson = List.replicate n 'a' := by
      induction n with
      | zero => rfl
      | succ n ih => rw [List.replicate_succ, List.flatMap_cons, ih, hescape, List.singleton_append]
    rw [letters, JsonText.quoted, hsame]
  rw [hquoted]
  exact JsonText.isRaw_quoted _ _ fun c _ rest => escapeJson_reads c rest

theorem utf8Len_letters (n : ℕ) : String.utf8Len (letters n) = n + 2 := by
  have hletters : String.utf8Len (List.replicate n 'a') = n := by
    induction n with
    | zero => rfl
    | succ n ih =>
      have hsize : 'a'.utf8Size = 1 := by decide
      rw [List.replicate_succ, String.utf8Len_cons, ih, hsize]
  have hquote : String.utf8Len ['"'] = 1 := by decide
  rw [letters, String.utf8Len_cons, String.utf8Len_append, hletters, hquote]
  rfl

theorem hubPayload_length (name : String) (params : List Char) :
    (hubPayload name params).utf8ByteSize =
      String.utf8Len ("\x7b\"name\":".toList ++ pushJsonStr name ++ ",\"params\":".toList) +
        String.utf8Len params + String.utf8Len ['}'] := by
  unfold hubPayload publishPayload
  rw [String.utf8ByteSize_ofList, String.utf8Len_append, String.utf8Len_append]

theorem publishLen_letters (n : ℕ) : publishLen "t" (hubPayload "n" (letters n)) = 200 + n := by
  have hsum : 176 + (21 + (n + 2) + 1) = 200 + n := by omega
  have hname : String.utf8Len ("\x7b\"name\":".toList ++ pushJsonStr "n" ++
    ",\"params\":".toList) = 21 := by decide +kernel
  have hclose : String.utf8Len ['}'] = 1 := by decide
  have hfixed : envelopeOverhead + "\x7b\"p\":\x7b\"topic\":,\"p\":\x7d\x7d".utf8ByteSize +
      (quote "t").utf8ByteSize = 176 := by decide +kernel
  rw [publishLen, hubPayload_length, utf8Len_letters, hfixed, hname, hclose]
  exact hsum

/-- A device call that fills the limit as a publish is checked and not sealed. -/
theorem deviceCall_outgrows_check : validate "t" (hubPayload "n" (letters 7799)) = .ok () ∧
      ¬call literals zeroTag busKey 1 0 0 false 5 "t" (hubPayload "n" (letters 7799)) = .ok () := by
  have hlength := publishLen_letters 7799
  have hraw := isRaw_hubPayload "n" (letters 7799) (isRaw_letters 7799)
  have hmax : maxNotifyBytes = 7999 := rfl
  refine ⟨(checkLen_eq_ok _).mpr (by omega), ?_⟩
  rw [call_eq_ok literals zeroTag busKey 1 0 0 5 "t" hraw]
  omega

end Stakit.PostgresBroker
