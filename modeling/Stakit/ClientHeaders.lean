import Stakit.NamedLists

set_option autoImplicit false

namespace Stakit.ClientHeaders
open NamedLists List

abbrev Headers := List (String × String)

/-- A name as `eq_ignore_ascii_case` compares it. -/
def lowered (name : String) : List Char := name.toList.map Char.toLower

def contentType : List Char := lowered "content-type"

inductive Method where
  | get | post | put | patch | delete
  deriving DecidableEq

/-- What the http crate takes: names, values as bytes, values by `from_str`. -/
structure Http where
  name : List Char → Bool
  value : String → Bool
  visible : String → Bool

structure Client where
  headers : Headers

/-- Of the files only whether there are any matters. -/
structure CallOpts where
  headers : Headers
  files : Bool
  method : Option Method

def Client.mergedHeaders (client : Client) (extra : Headers) : Headers :=
  overlayAll lowered client.headers extra

def Client.request (http : Http) (client : Client) (extra : Headers) : Option Headers :=
  let kept := (client.mergedHeaders extra).filter fun header => lowered header.1 ≠ contentType
  if kept.all fun header => http.name (lowered header.1) && http.value header.2 then some kept
  else none

def withPayload (request : Headers) (method : Method) : Headers :=
  if method = .get then request else request ++ [("content-type", "application/json")]

/-- The client after the call and the headers sent; a form brings its own content type. -/
def Client.sendPayload (http : Http) (form : String) (client : Client) (opts : CallOpts) :
    Client × Option Headers :=
  let method := opts.method.getD .post
  if opts.files ∧ method = .get then (client, none)
  else
    (client, (client.request http opts.headers).map fun request =>
      if opts.files then request ++ [("content-type", form)] else withPayload request method)

/-- The headers `into_client_request` writes, each of them valid. -/
structure Handshake (http : Http) where
  headers : Headers
  valid : ∀ header ∈ headers, http.name (lowered header.1) = true ∧ http.visible header.2 = true

/-- A header that does not parse is left out. -/
def Client.connect (http : Http) (handshake : Handshake http) (client : Client)
    (opts : CallOpts) : Client × Headers :=
  (client, insertAll lowered handshake.headers
    ((client.mergedHeaders opts.headers).filter fun header =>
      http.name (lowered header.1) && http.visible header.2))

/-- An object's own properties, without one that an assignment would not set again. -/
structure HeadersMap where
  entries : Headers
  distinct : (entries.map Prod.fst).Nodup
  assignable : "__proto__" ∉ entries.map Prod.fst

def mergeHeaders (base extra : HeadersMap) : HeadersMap where
  entries := overlayAll id base.entries extra.entries
  distinct := overlayAll_distinct _ _ base.distinct
  assignable h := ((mem_overlayAll_keys ..).mp h).elim base.assignable extra.assignable

def withoutContentType (headers : Headers) : Headers :=
  headers.filter fun header => lowered header.1 ≠ contentType

def payloadRequest (method : Method) (headers : Headers) : Headers :=
  if method = .get then headers
  else withoutContentType headers ++ [("content-type", "application/json")]

/-- `fetch` sets the content type of a form itself. -/
def unaryRequest (form : String) (method : Method) (files : Bool) (headers : Headers) :
    Option Headers :=
  if files = false then some (payloadRequest method headers)
  else if method = .get then none
  else some (withoutContentType headers ++ [("content-type", form)])

def doFetch (form : String) (base extra : HeadersMap) (method : Option Method) (files : Bool) :
    HeadersMap × Option Headers :=
  (base, unaryRequest form (method.getD .post) files (mergeHeaders base extra).entries)

/-- A name given per call has exactly the last value given, any other base name its base
values; `encodes` leaves the content type to the client. -/
structure Wins (encodes : Bool) (base extra sent : Headers) : Prop where
  given : ∀ name value, (encodes = true → name ≠ contentType) →
    (values lowered extra name).getLast? = some value → values lowered sent name = [value]
  kept : ∀ name, (encodes = true → name ≠ contentType) → values lowered extra name = [] →
    values lowered base name ≠ [] → values lowered sent name = values lowered base name

/-- With a body the only content type is the client's own. -/
def Encoded (own : Option String) (sent : Headers) : Prop :=
  ∀ value, own = some value → values lowered sent contentType = [value]

/-- The content type of a body, none for a `GET`. -/
def encoding (form : String) (method : Method) (files : Bool) : Option String :=
  if method = .get then none else if files then some form else some "application/json"

theorem values_encoded (headers : Headers) (own : Option String) (name : List Char) :
    values lowered (withoutContentType headers ++ own.toList.map fun value => ("content-type", value))
        name = if name = contentType then own.toList else values lowered headers name := by
  rw [values_append, withoutContentType, values_without]
  by_cases hname : name = contentType
  · rw [if_pos hname, if_pos hname, nil_append, hname]
    cases own with
    | none => rfl
    | some value =>
      rw [Option.toList_some, map_singleton, values_cons, values_nil]
      exact if_pos rfl
  · rw [if_neg hname, if_neg hname]
    cases own with
    | none => exact append_nil _
    | some value =>
      have hother : lowered "content-type" ≠ name := Ne.symm hname
      rw [Option.toList_some, map_singleton, values_cons, if_neg hother, values_nil, append_nil]

variable (http : Http) (form : String) (base extra : HeadersMap) (handshake : Handshake http)
  (client : Client) (opts : CallOpts) (sent : Headers) (name : List Char)

theorem sendPayload_sent (h : (client.sendPayload http form opts).2 = some sent) :
    sent = withoutContentType (client.mergedHeaders opts.headers) ++
      (encoding form (opts.method.getD .post) opts.files).toList.map
        fun value => ("content-type", value) := by
  unfold Client.sendPayload at h
  dsimp only at h
  split at h
  · cases h
  · next hform =>
    obtain ⟨request, hrequest, hsent⟩ := Option.map_eq_some_iff.mp h
    have hkept : request = withoutContentType (client.mergedHeaders opts.headers) := by
      unfold Client.request at hrequest
      dsimp only at hrequest
      split at hrequest
      · exact (Option.some.inj hrequest).symm
      · cases hrequest
    rw [← hsent, hkept]
    unfold withPayload encoding
    cases hfiles : opts.files with
    | false =>
      rw [if_neg (by decide)]
      split
      · exact (append_nil _).symm
      · rfl
    | true =>
      have hmethod : opts.method.getD .post ≠ .get := fun hget => hform ⟨hfiles, hget⟩
      rw [if_pos rfl, if_neg hmethod]
      rfl

/-- No name given per call has more than one base header, the content type aside. -/
def OneBase (base extra : Headers) : Prop :=
  ∀ name, name ≠ contentType → values lowered extra name ≠ [] →
    (values lowered base name).length ≤ 1

theorem http_wins_iff (h : (client.sendPayload http form opts).2 = some sent) :
    Wins true client.headers opts.headers sent ∧
        Encoded (encoding form (opts.method.getD .post) opts.files) sent ↔
      OneBase client.headers opts.headers := by
  have hsent := sendPayload_sent http form client opts sent h
  have hvalues : ∀ name, name ≠ contentType → values lowered sent name =
      values lowered (overlayAll lowered client.headers opts.headers) name := by
    intro name hname
    rw [hsent, values_encoded, if_neg hname]
    rfl
  constructor
  · rintro ⟨hwins, -⟩ name hname hgiven
    cases hlast : (values lowered opts.headers name).getLast? with
    | none => exact absurd (List.getLast?_eq_none_iff.mp hlast) hgiven
    | some value =>
      have hone := hwins.given name value (fun _ => hname) hlast
      rw [hvalues name hname, values_overlayAll, hlast] at hone
      have htail : (values lowered client.headers name).tail = [] := (List.cons.inj hone).2
      have hlength := congrArg List.length htail
      rw [length_tail, length_nil] at hlength
      omega
  · intro hone
    refine ⟨⟨?_, ?_⟩, ?_⟩
    · intro name value hname hlast
      rw [hvalues name (hname rfl), values_overlayAll, hlast]
      have hgiven : values lowered opts.headers name ≠ [] := fun hnil => by
        rw [hnil] at hlast
        cases hlast
      have hlength := hone name (hname rfl) hgiven
      have htail : (values lowered client.headers name).tail = [] := by
        rw [← length_eq_zero_iff, length_tail]
        omega
      rw [htail]
      rfl
    · intro name hname hnone _
      rw [hvalues name (hname rfl), values_overlayAll, hnone]
      rfl
    · intro value hvalue
      rw [hsent, values_encoded, if_pos rfl, hvalue]
      rfl

/-- Of a name given per call the last value that parses, with the base values behind the
first, is the last one given; any other base name has one value, which parses. -/
def Handshaken (http : Http) (base extra : Headers) : Prop :=
  ∀ name, (∀ value, (values lowered extra name).getLast? = some value → http.name name = true ∧
      ((value :: (values lowered base name).tail).filter http.visible).getLast? = some value) ∧
    (values lowered extra name = [] → values lowered base name ≠ [] → http.name name = true ∧
      ∃ value, values lowered base name = [value] ∧ http.visible value = true)

theorem values_connect : values lowered (client.connect http handshake opts).2 name =
      (if http.name name then
          (values lowered (client.mergedHeaders opts.headers) name).filter http.visible
        else []).getLast?.elim (values lowered handshake.headers name) fun value => [value] := by
  unfold Client.connect
  rw [values_insertAll, values_filter]

theorem handshake_visible (value : String) (h : value ∈ values lowered handshake.headers name) :
    http.name name = true ∧ http.visible value = true := by
  obtain ⟨header, hmem, hname, hvalue⟩ := (mem_values lowered _ _ _).mp h
  obtain ⟨hnamed, hvisible⟩ := handshake.valid header hmem
  rw [hname] at hnamed
  rw [hvalue] at hvisible
  exact ⟨hnamed, hvisible⟩

/-- The handshake carries one value of a name exactly if that is the last one to parse. -/
theorem connect_carries (value : String)
    (hmem : value ∈ values lowered (client.mergedHeaders opts.headers) name) :
    values lowered (client.connect http handshake opts).2 name = [value] ↔ http.name name = true ∧
        ((values lowered (client.mergedHeaders opts.headers) name).filter http.visible).getLast? =
          some value := by
  rw [values_connect]
  cases hnamed : http.name name with
  | false =>
    rw [if_neg (by decide)]
    refine ⟨fun h => ?_, fun h => absurd h.1 (by decide)⟩
    have hown : value ∈ values lowered handshake.headers name := by
      change values lowered handshake.headers name = [value] at h
      rw [h]
      exact mem_singleton.mpr rfl
    rw [(handshake_visible http handshake name value hown).1] at hnamed
    cases hnamed
  | true =>
    rw [if_pos rfl]
    cases hlast : ((values lowered (client.mergedHeaders opts.headers) name).filter
        http.visible).getLast? with
    | some last =>
      simp only [Option.elim_some, List.cons.injEq, and_true, true_and, Option.some.injEq]
    | none =>
      refine ⟨fun h => ?_, fun h => by cases h.2⟩
      have hown : value ∈ values lowered handshake.headers name := by
        change values lowered handshake.headers name = [value] at h
        rw [h]
        exact mem_singleton.mpr rfl
      have hvisible := (handshake_visible http handshake name value hown).2
      have hnone := List.getLast?_eq_none_iff.mp hlast
      exact absurd hvisible (filter_eq_nil_iff.mp hnone value hmem)

theorem connect_wins_iff :
    Wins false client.headers opts.headers (client.connect http handshake opts).2 ↔
      Handshaken http client.headers opts.headers := by
  have hmerged : ∀ name, values lowered (client.mergedHeaders opts.headers) name =
      (values lowered opts.headers name).getLast?.elim (values lowered client.headers name)
        fun value => value :: (values lowered client.headers name).tail :=
    fun name => values_overlayAll lowered client.headers opts.headers name
  have hgiven : ∀ name value, (values lowered opts.headers name).getLast? = some value →
      (values lowered (client.connect http handshake opts).2 name = [value] ↔
        http.name name = true ∧ ((value :: (values lowered client.headers name).tail).filter
          http.visible).getLast? = some value) := by
    intro name value hlast
    have hname := hmerged name
    rw [hlast] at hname
    have hcarries := connect_carries http handshake client opts name value (by rw [hname]; simp)
    rw [hname] at hcarries
    exact hcarries
  have hkept : ∀ name, values lowered opts.headers name = [] →
      values lowered client.headers name ≠ [] →
      (values lowered (client.connect http handshake opts).2 name =
          values lowered client.headers name ↔
        http.name name = true ∧ ∃ value, values lowered client.headers name = [value] ∧
          http.visible value = true) := by
    intro name hnone hbase
    have hname : values lowered (client.mergedHeaders opts.headers) name =
        values lowered client.headers name := by
      rw [hmerged, hnone]
      rfl
    cases hvalues : values lowered client.headers name with
    | nil => exact absurd hvalues hbase
    | cons value rest =>
      have hcarries := connect_carries http handshake client opts name value
        (by rw [hname, hvalues]; exact mem_cons_self)
      rw [hname, hvalues] at hcarries
      cases rest with
      | nil =>
        rw [hcarries]
        refine and_congr_right fun _ => ⟨fun h => ⟨value, rfl, ?_⟩, ?_⟩
        · by_contra hhidden
          rw [filter_cons_of_neg hhidden] at h
          cases h
        · rintro ⟨other, hother, hvisible⟩
          rw [(List.cons.inj hother).1, filter_cons_of_pos hvisible]
          rfl
      | cons second rest =>
        refine ⟨fun h => ?_, fun h => ?_⟩
        · have hown := values_connect http handshake client opts name
          rw [hname, hvalues, h] at hown
          generalize hlast : (if http.name name = true then
            (value :: second :: rest).filter http.visible else []).getLast? = last at hown
          cases last with
          | some last => cases hown
          | none =>
            have hvalid := handshake_visible http handshake name value (by
              rw [← show value :: second :: rest = values lowered handshake.headers name from hown]
              exact mem_cons_self)
            rw [if_pos hvalid.1, List.getLast?_eq_none_iff] at hlast
            exact absurd hvalid.2 (filter_eq_nil_iff.mp hlast value mem_cons_self)
        · obtain ⟨other, hother, -⟩ := h.2
          cases hother
  constructor
  · intro hwins name
    exact ⟨fun value hlast => (hgiven name value hlast).mp
        (hwins.given name value (fun h => by cases h) hlast),
      fun hnone hbase => (hkept name hnone hbase).mp
        (hwins.kept name (fun h => by cases h) hnone hbase)⟩
  · intro hshaken
    exact ⟨fun name value _ hlast => (hgiven name value hlast).mpr ((hshaken name).1 value hlast),
      fun name _ hnone hbase => (hkept name hnone hbase).mpr ((hshaken name).2 hnone hbase)⟩

/-- A name given per call is spelled one way, in the base headers as well. -/
def OneSpelling (encodes : Bool) (base extra : HeadersMap) : Prop :=
  ∀ given ∈ extra.entries, (encodes = true → lowered given.1 ≠ contentType) →
    ∀ header, header ∈ base.entries ∨ header ∈ extra.entries →
      lowered header.1 = lowered given.1 → header.1 = given.1

theorem doFetch_sent {method : Option Method} {files : Bool} {sent : Headers}
    (h : (doFetch form base extra method files).2 = some sent) :
    (∀ name, ((encoding form (method.getD .post) files).isSome = true → name ≠ contentType) →
      values lowered sent name = values lowered (mergeHeaders base extra).entries name) ∧
    Encoded (encoding form (method.getD .post) files) sent := by
  have hencoded : ∀ own, sent = withoutContentType (mergeHeaders base extra).entries ++
      (some own).toList.map (fun value => ("content-type", value)) →
      (∀ name, ((some own).isSome = true → name ≠ contentType) →
        values lowered sent name = values lowered (mergeHeaders base extra).entries name) ∧
      Encoded (some own) sent := by
    rintro own rfl
    refine ⟨fun name hname => ?_, fun value hvalue => ?_⟩
    · rw [values_encoded, if_neg (hname rfl)]
    · rw [values_encoded, if_pos rfl, hvalue]
      rfl
  unfold doFetch unaryRequest payloadRequest at h
  dsimp only at h
  unfold encoding
  split at h
  · next hfiles =>
    rw [hfiles]
    rw [Option.some.injEq] at h
    split at h
    · next hget =>
      rw [if_pos hget, ← h]
      exact ⟨fun _ _ => rfl, nofun⟩
    · next hpost =>
      rw [if_neg hpost]
      exact hencoded "application/json" h.symm
  · next hfiles =>
    rw [Bool.not_eq_false] at hfiles
    rw [hfiles]
    split at h
    · cases h
    · next hpost =>
      rw [if_neg hpost]
      exact hencoded form (Option.some.inj h).symm

theorem spread_given_iff {given : String × String} (hgiven : given ∈ extra.entries)
    {value : String}
    (hlast : (values lowered extra.entries (lowered given.1)).getLast? = some value) :
    values lowered (mergeHeaders base extra).entries (lowered given.1) = [value] ↔
      ∀ header, header ∈ base.entries ∨ header ∈ extra.entries →
        lowered header.1 = lowered given.1 → header.1 = given.1 := by
  have hkey : ∀ header, header ∈ base.entries ∨ header ∈ extra.entries →
      ∃ other ∈ (mergeHeaders base extra).entries, other.1 = header.1 := by
    intro header hmem
    have hkeys := (mem_overlayAll_keys base.entries extra.entries header.1).mpr
      (hmem.imp (fun h => mem_map.mpr ⟨header, h, rfl⟩) (fun h => mem_map.mpr ⟨header, h, rfl⟩))
    exact mem_map.mp hkeys
  constructor
  · intro hone header hmem hsame
    unfold values at hone
    obtain ⟨entry, hentry, -⟩ := map_eq_singleton_iff.mp hone
    have hfound : ∀ other ∈ (mergeHeaders base extra).entries,
        lowered other.1 = lowered given.1 → other = entry := by
      intro other hother hname
      have hfilter : other ∈ (mergeHeaders base extra).entries.filter
          fun entry => decide (lowered entry.1 = lowered given.1) :=
        mem_filter.mpr ⟨hother, decide_eq_true hname⟩
      rw [hentry] at hfilter
      exact mem_singleton.mp hfilter
    obtain ⟨other, hother, hspelled⟩ := hkey header hmem
    obtain ⟨same, hsameMem, hgivenKey⟩ := hkey given (.inr hgiven)
    have hfirst := hfound other hother (by rw [hspelled]; exact hsame)
    have hsecond := hfound same hsameMem (by rw [hgivenKey])
    rw [← hspelled, ← hgivenKey, hfirst, hsecond]
  · intro hspelling
    have hmerged : ∀ entry ∈ (mergeHeaders base extra).entries,
        lowered entry.1 = lowered given.1 → entry.1 = given.1 := by
      intro entry hentry hname
      rcases (mem_overlayAll_keys base.entries extra.entries entry.1).mp
        (mem_map.mpr ⟨entry, hentry, rfl⟩) with hbase | hextra
      · obtain ⟨header, hheader, hkey⟩ := mem_map.mp hbase
        rw [← hkey] at hname ⊢
        exact hspelling header (.inl hheader) hname
      · obtain ⟨header, hheader, hkey⟩ := mem_map.mp hextra
        rw [← hkey] at hname ⊢
        exact hspelling header (.inr hheader) hname
    rw [values_spelled lowered extra.entries given.1
      fun entry hentry => hspelling entry (.inr hentry)] at hlast
    rw [values_spelled lowered _ given.1 hmerged]
    change values id (overlayAll id base.entries extra.entries) (id given.1) = [value]
    rw [values_overlayAll]
    change (values id extra.entries given.1).getLast?.elim _ _ = _
    rw [hlast, Option.elim_some]
    have hlength := values_distinct base.entries given.1 base.distinct
    have htail : (values id base.entries (id given.1)).tail = [] := by
      rw [← length_eq_zero_iff, length_tail, id_eq]
      omega
    rw [htail]

theorem doFetch_wins_iff {method : Option Method} {files : Bool} {sent : Headers}
    (h : (doFetch form base extra method files).2 = some sent) :
    Wins (encoding form (method.getD .post) files).isSome base.entries extra.entries sent ∧
        Encoded (encoding form (method.getD .post) files) sent ↔
      OneSpelling (encoding form (method.getD .post) files).isSome base extra := by
  obtain ⟨hsent, hencoded⟩ := doFetch_sent form base extra h
  constructor
  · rintro ⟨hwins, -⟩ given hgiven hname
    have hvalue : given.2 ∈ values lowered extra.entries (lowered given.1) :=
      (mem_values lowered _ _ _).mpr ⟨given, hgiven, rfl, rfl⟩
    cases hlast : (values lowered extra.entries (lowered given.1)).getLast? with
    | none =>
      rw [List.getLast?_eq_none_iff.mp hlast] at hvalue
      cases hvalue
    | some value =>
      have hone := hwins.given (lowered given.1) value hname hlast
      rw [hsent _ hname] at hone
      exact (spread_given_iff base extra hgiven hlast).mp hone
  · intro hspelling
    refine ⟨⟨fun name value hname hlast => ?_, fun name hname hnone _ => ?_⟩, hencoded⟩
    · obtain ⟨given, hgiven, hlowered, -⟩ :=
        (mem_values lowered _ _ _).mp (mem_of_getLast? hlast)
      subst hlowered
      rw [hsent _ hname]
      exact (spread_given_iff base extra hgiven hlast).mpr
        (hspelling given hgiven hname)
    · rw [hsent _ hname]
      exact values_overlayAll_other lowered base.entries extra.entries hnone

/-- Headers given per call win, in an HTTP request of the Rust client, in its handshake
and in a fetch, exactly if each builder finds the names it needs to; the base headers are
as before. -/
theorem per_call_headers_win_iff : (∀ (client : Client) (opts : CallOpts) (sent : Headers),
      (client.sendPayload http form opts).2 = some sent →
        (client.sendPayload http form opts).1 = client ∧
        (Wins true client.headers opts.headers sent ∧
            Encoded (encoding form (opts.method.getD .post) opts.files) sent ↔
          OneBase client.headers opts.headers)) ∧
    (∀ (handshake : Handshake http) (client : Client) (opts : CallOpts),
      (client.connect http handshake opts).1 = client ∧
      (Wins false client.headers opts.headers (client.connect http handshake opts).2 ↔
        Handshaken http client.headers opts.headers)) ∧
    ∀ (base extra : HeadersMap) (method : Option Method) (files : Bool) (sent : Headers),
      (doFetch form base extra method files).2 = some sent →
        (doFetch form base extra method files).1 = base ∧
        (Wins (encoding form (method.getD .post) files).isSome base.entries extra.entries sent ∧
            Encoded (encoding form (method.getD .post) files) sent ↔
          OneSpelling (encoding form (method.getD .post) files).isSome base extra) := by
  refine ⟨fun client opts sent h => ⟨?_, http_wins_iff http form client opts sent h⟩,
    fun handshake client opts => ⟨rfl, connect_wins_iff http handshake client opts⟩,
    fun base extra method files sent h => ⟨rfl, doFetch_wins_iff form base extra h⟩⟩
  unfold Client.sendPayload
  dsimp only
  split <;> rfl

/-- Every header is accepted. -/
def lenient : Http := ⟨fun _ => true, fun _ => true, fun _ => true⟩

def rootClient : Client := ⟨[("Authorization", "root")]⟩

def tokenOpts : CallOpts := ⟨[("authorization", "token"), ("Content-Type", "text/plain")], false, none⟩

theorem token_wins :
    ∃ sent, (rootClient.sendPayload lenient "multipart/form-data" tokenOpts).2 = some sent ∧
      Wins true rootClient.headers tokenOpts.headers sent := by
  refine ⟨[("Authorization", "token"), ("content-type", "application/json")], by decide +kernel, ?_⟩
  have hone : OneBase rootClient.headers tokenOpts.headers := by
    intro name _ _
    unfold values
    rw [length_map]
    exact length_filter_le _ _
  exact (((per_call_headers_win_iff lenient "multipart/form-data").1 rootClient tokenOpts _
    (by decide +kernel)).2.mpr hone).1

/-- A repeated base header, and one spelled otherwise, go out beside the new value; the
handshake sends the old value alone. -/
theorem stale_credentials_sent :
    let client : Client := ⟨[("Authorization", "old"), ("authorization", "older")]⟩
    let opts : CallOpts := ⟨[("authorization", "new")], false, none⟩
    (client.sendPayload lenient "multipart/form-data" opts).2 =
        some [("Authorization", "new"), ("authorization", "older"),
          ("content-type", "application/json")] ∧
      (client.connect lenient ⟨[], nofun⟩ opts).2 = [("authorization", "older")] ∧
      (doFetch "multipart/form-data" ⟨[("Authorization", "old")], by decide, by decide⟩
          ⟨[("authorization", "new")], by decide, by decide⟩ none false).2 =
        some [("Authorization", "old"), ("authorization", "new"),
          ("content-type", "application/json")] := by
  decide +kernel

end Stakit.ClientHeaders
