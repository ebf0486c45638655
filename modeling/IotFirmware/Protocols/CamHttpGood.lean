import IotFirmware.Protocols.CamHttp

/-! When the camera reader accepts exactly the good readings. -/
namespace IotFirmware
namespace CamHttpReader

/-- An error member of a good reading: absent, empty, or `no error`. -/
def ErrorGood (error : Option Json) : Prop :=
  error = none ∨ error = some (.string []) ∨ error = some (.string noError)

/-- The body is a JSON object in which the flow is an object with a good error member and
a string of a decimal number, whose bits these are. -/
def GoodReading (lib : JsonAccess) (flow body : List UInt8) (bits : UInt32) : Prop :=
  ∃ members number text, lib.deserializeJson body = some (.object members) ∧
    members.lookup flow = some (.object number) ∧ ErrorGood (number.lookup errorKey) ∧
    number.lookup valueKey = some (.string text) ∧ SpellsDouble text bits

/-- A getter succeeds exactly on the good readings of its flow, with their number, and
leaves its output alone on everything else. -/
structure AcceptsGood (lib : JsonAccess) (get : Getter CamHttpReader CamNetwork) (flow : List UInt8)
    (net : CamNetwork) (r : CamHttpReader) : Prop where
  value : ∀ val bits, (get net r val).1 = true ∧ (get net r val).2.1 = bits ↔
    ∃ body, HttpBus.Answers net r.bus.config (url r.config) body ∧ GoodReading lib flow body bits
  untouched : ∀ val, (get net r val).1 = false → (get net r val).2.1 = val

/-- What passes for no error: any member that is no string, and a string that as a C
string is empty or `no error`. -/
def ErrorPasses (error : Option Json) : Prop :=
  ∀ text, error = some (.string text) → cString text = [] ∨ cString text = noError

/-- Where the flow is an object with some text for a value and nothing that counts as an
error, the error is good and the text is a decimal number. -/
def NoBadPasses (lib : JsonAccess) (flow body : List UInt8) : Prop :=
  ∀ members number text, lib.deserializeJson body = some (.object members) →
    members.lookup flow = some (.object number) → number.lookup valueKey = some (.string text) →
    cString text ≠ [] → ErrorPasses (number.lookup errorKey) →
    ErrorGood (number.lookup errorKey) ∧ ∃ bits, SpellsDouble text bits

theorem ErrorGood.passes {error : Option Json} (h : ErrorGood error) : ErrorPasses error := by
  intro text htext
  rcases h with rfl | rfl | rfl
  · simp at htext
  · obtain rfl : [] = text := by simpa using htext
    exact .inl rfl
  · obtain rfl : noError = text := by simpa using htext
    exact .inr (by decide)

/-- What the reader takes for the error text is no error. -/
theorem errorPasses_iff (number : List (List UInt8 × Json)) :
    ErrorPasses (number.lookup errorKey) ↔
      cString (((Json.object number).member errorKey).textOr []) = [] ∨
        cString (((Json.object number).member errorKey).textOr []) = noError := by
  have hempty : cString [] = [] := rfl
  rw [Json.member_object, ErrorPasses]
  rcases number.lookup errorKey with _ | ⟨_ | _ | _ | text | _ | _⟩ <;> simp [Json.textOr, hempty]

/-- What the reader makes of a document. -/
theorem flowValue_eq_some {lib : JsonAccess} (hlib : lib.Documented) {flow : List UInt8} {doc : Json} {bits : UInt32} :
    flowValue lib flow doc = some bits ↔ ∃ members number text, doc = .object members ∧
      members.lookup flow = some (.object number) ∧ ErrorPasses (number.lookup errorKey) ∧
      number.lookup valueKey = some (.string text) ∧ cString text ≠ [] ∧ atof (cString text) = bits := by
  constructor
  · intro h
    simp only [flowValue, hlib.member_eq, hlib.isNull_eq, hlib.textOr_eq, Option.ite_none_left_eq_some,
      Option.some.injEq] at h
    obtain ⟨hnull, herror, hvalue, hbits⟩ := h
    have htext : ((doc.member flow).member valueKey).textOr [] ≠ [] := by
      intro hnil
      rw [hnil] at hvalue
      exact hvalue rfl
    obtain ⟨text, hmember, htextOr⟩ := Json.string_of_textOr htext
    obtain ⟨number, hnumber, hvalueLookup⟩ := Json.lookup_of_member hmember (by simp)
    obtain ⟨members, hdoc, hflow⟩ := Json.lookup_of_member hnumber (by simp)
    rw [htextOr] at hvalue hbits
    refine ⟨members, number, text, hdoc, hflow, (errorPasses_iff number).mpr ?_, hvalueLookup, hvalue, hbits⟩
    rw [hnumber] at herror
    by_contra hnone
    rw [not_or] at hnone
    exact herror hnone
  · rintro ⟨members, number, text, rfl, hflow, herror, hvalue, htext, hbits⟩
    have hnumber : (Json.object members).member flow = .object number := by rw [Json.member_object, hflow]; rfl
    have hmember : ((Json.object number).member valueKey).textOr [] = text := by
      rw [Json.member_object, hvalue]
      rfl
    simp only [flowValue, hlib.member_eq, hlib.isNull_eq, hlib.textOr_eq, hnumber, hmember]
    rw [if_neg (by simp [Json.isNull]), if_neg, if_neg htext, hbits]
    rintro ⟨hne, hno⟩
    exact ((errorPasses_iff number).mp herror).elim hne hno

section Reading
variable {lib : JsonAccess} {net : CamNetwork} {r : CamHttpReader} {flow : List UInt8}

private theorem fetch_eq_some {doc : Json} :
    (r.fetch lib net).1 = some doc ↔
      ∃ body, HttpBus.Answers net r.bus.config (url r.config) body ∧ body ≠ [] ∧
        lib.deserializeJson body = some doc := by
  constructor
  · intro h
    rw [fetch] at h
    rcases hsend : r.bus.send net (url r.config) with ⟨sent, bus⟩
    cases sent with
    | false => simp [hsend] at h
    | true =>
      rcases hresponse : readResponse bus with ⟨out, bus'⟩
      have hout := (readResponse_eq bus).1
      rw [hresponse] at hout
      dsimp only at hout
      split at hout
      · simp [hsend, hresponse, hout] at h
      case isFalse hbody =>
        exact ⟨bus.remaining, HttpBus.answers_of_send hsend, hbody, by simpa [hsend, hresponse, hout] using h⟩
  · rintro ⟨body, hanswers, hbody, hdoc⟩
    have hremaining : ({ r.bus with response := body, readIndex := 0 } : HttpBus).remaining = body := by
      simp [HttpBus.remaining]
    rcases hresponse : readResponse { r.bus with response := body, readIndex := 0 } with ⟨out, bus'⟩
    have hout := (readResponse_eq { r.bus with response := body, readIndex := 0 }).1
    rw [hremaining, if_neg hbody, hresponse] at hout
    dsimp only at hout
    rw [fetch, hanswers.send]
    dsimp only
    rw [hresponse, hout]
    exact hdoc

private theorem readFlow_eq_true {val bits : UInt32} :
    (readFlow lib flow net r val).1 = true ∧ (readFlow lib flow net r val).2.1 = bits ↔
      ∃ doc, (r.fetch lib net).1 = some doc ∧ flowValue lib flow doc = some bits := by
  rw [readFlow]
  rcases r.fetch lib net with ⟨_ | doc, r'⟩
  · simp
  · cases hvalue : flowValue lib flow doc with
    | none => simp [hvalue]
    | some value => simp [hvalue]

/-- What `readFlow` succeeds on, whatever else its flow holds. -/
theorem readFlow_accepts (hlib : lib.Documented) {val bits : UInt32} :
    (readFlow lib flow net r val).1 = true ∧ (readFlow lib flow net r val).2.1 = bits ↔
      ∃ body members number text, HttpBus.Answers net r.bus.config (url r.config) body ∧ body ≠ [] ∧
        lib.deserializeJson body = some (.object members) ∧ members.lookup flow = some (.object number) ∧
        ErrorPasses (number.lookup errorKey) ∧ number.lookup valueKey = some (.string text) ∧ cString text ≠ [] ∧
        atof (cString text) = bits := by
  simp only [readFlow_eq_true, fetch_eq_some, flowValue_eq_some hlib]
  constructor
  · rintro ⟨doc, ⟨body, hanswers, hbody, hdoc⟩, members, number, text, rfl, h⟩
    exact ⟨body, members, number, text, hanswers, hbody, hdoc, h⟩
  · rintro ⟨body, members, number, text, hanswers, hbody, hdoc, h⟩
    exact ⟨.object members, ⟨body, hanswers, hbody, hdoc⟩, members, number, text, rfl, h⟩

/-- A good reading passes every check of the reader. -/
theorem readFlow_good (hlib : lib.Documented) {val bits : UInt32} {body : List UInt8}
    (hanswers : HttpBus.Answers net r.bus.config (url r.config) body)
    (hgood : GoodReading lib flow body bits) :
    (readFlow lib flow net r val).1 = true ∧ (readFlow lib flow net r val).2.1 = bits := by
  obtain ⟨members, number, text, hdoc, hflow, herror, hvalue, hspells⟩ := hgood
  have hbody : body ≠ [] := by
    rintro rfl
    simp [hlib.empty_input] at hdoc
  have htext : cString text = text ∧ text ≠ [] := by
    obtain ⟨d, rfl, -⟩ := hspells
    exact ⟨cString_eq_self d.nul_not_mem_text, d.text_ne_nil⟩
  refine (readFlow_accepts hlib).mpr
    ⟨body, members, number, text, hanswers, hbody, hdoc, hflow, herror.passes, hvalue, ?_, ?_⟩
  · rw [htext.1]
    exact htext.2
  · rw [htext.1]
    exact hspells.atof

private theorem readFlow_acceptsGood_iff (hlib : lib.Documented) :
    AcceptsGood lib (readFlow lib flow) flow net r ↔
      ∀ body, HttpBus.Answers net r.bus.config (url r.config) body → NoBadPasses lib flow body := by
  constructor
  · intro h body hanswers members number text hdoc hflow hvalue htext herror
    have hbody : body ≠ [] := by
      rintro rfl
      simp [hlib.empty_input] at hdoc
    obtain ⟨body', hanswers', members', number', text', hdoc', hflow', herror', hvalue', hspells⟩ :=
      (h.value 0 (atof (cString text))).mp ((readFlow_accepts hlib).mpr
        ⟨body, members, number, text, hanswers, hbody, hdoc, hflow, herror, hvalue, htext, rfl⟩)
    obtain rfl : body = body' := (Prod.mk.inj (hanswers.get.symm.trans hanswers'.get)).2
    obtain rfl : members = members' := by simpa using hdoc.symm.trans hdoc'
    obtain rfl : number = number' := by simpa using hflow.symm.trans hflow'
    obtain rfl : text = text' := by simpa using hvalue.symm.trans hvalue'
    exact ⟨herror', _, hspells⟩
  · intro h
    refine ⟨fun val bits => ⟨fun hread => ?_, ?_⟩, readFlow_untouched lib flow net r⟩
    · obtain ⟨body, members, number, text, hanswers, -, hdoc, hflow, herror, hvalue, htext, rfl⟩ :=
        (readFlow_accepts hlib).mp hread
      obtain ⟨hgood, bits, hspells⟩ := h body hanswers members number text hdoc hflow hvalue htext herror
      refine ⟨body, hanswers, members, number, text, hdoc, hflow, hgood, hvalue, ?_⟩
      obtain ⟨d, rfl, hrange, hbits⟩ := hspells
      refine ⟨d, rfl, hrange, ?_⟩
      rw [cString_eq_self d.nul_not_mem_text, atof_text]
    · rintro ⟨body, hanswers, hgood⟩
      exact readFlow_good hlib hanswers hgood

end Reading

theorem AcceptsGood.congr {lib : JsonAccess} {get get' : Getter CamHttpReader CamNetwork}
    {flow : List UInt8} {net : CamNetwork} {r : CamHttpReader} (hget : ∀ val, get net r val = get' net r val)
    (h : AcceptsGood lib get flow net r) : AcceptsGood lib get' flow net r where
  value val bits := by
    rw [← hget]
    exact h.value val bits
  untouched val := by
    rw [← hget]
    exact h.untouched val

private theorem getImport_eq (lib : JsonAccess) (net : CamNetwork) (r : CamHttpReader) (val : UInt32) :
    getImport lib net r val = readFlow lib r.config.flowName net r val := rfl

private theorem getExport_configured {lib : JsonAccess} {net : CamNetwork} {r : CamHttpReader}
    (hexport : r.config.exportFlowName ≠ []) (val : UInt32) :
    getExport lib net r val = readFlow lib r.config.exportFlowName net r val := if_neg hexport

/-- Both getters accept exactly the good readings just where nothing else passes for one. -/
theorem camHttp_acceptsGood_iff (lib : JsonAccess) (hlib : lib.Documented) (net : CamNetwork) (r : CamHttpReader) :
    (AcceptsGood lib (getImport lib) r.config.flowName net r ∧
      (r.config.exportFlowName ≠ [] →
        AcceptsGood lib (getExport lib) r.config.exportFlowName net r)) ↔
      ∀ body, HttpBus.Answers net r.bus.config (url r.config) body →
        NoBadPasses lib r.config.flowName body ∧
          (r.config.exportFlowName ≠ [] → NoBadPasses lib r.config.exportFlowName body) := by
  have hread : ∀ flow, AcceptsGood lib (readFlow lib flow) flow net r ↔ _ :=
    fun flow => readFlow_acceptsGood_iff hlib
  constructor
  · rintro ⟨himport, hexport⟩ body hanswers
    refine ⟨(hread r.config.flowName).mp (himport.congr (getImport_eq _ _ _)) body hanswers, fun hflow => ?_⟩
    exact (hread _).mp ((hexport hflow).congr (getExport_configured hflow)) body hanswers
  · intro h
    refine ⟨((hread r.config.flowName).mpr fun body hanswers => (h body hanswers).1).congr fun val =>
      (getImport_eq _ _ _ val).symm, fun hflow => ?_⟩
    exact ((hread _).mpr fun body hanswers => (h body hanswers).2 hflow).congr fun val =>
      (getExport_configured hflow val).symm

def mainName : List UInt8 := ascii "main"

def mainBody (error : List UInt8) : List UInt8 :=
  ascii "\x7b\"main\":\x7b\"value\":\"5\",\"error\":" ++ error ++ ascii "\x7d\x7d"

def mainDocument (error : Json) : Json :=
  .object [(mainName, .object [(valueKey, .string (ascii "5")), (errorKey, error)])]

def libraryFor (body : List UInt8) (doc : Json) : JsonAccess := .ofParser fun s => if s = body then some doc else none

def answering (body : List UInt8) : CamNetwork := ⟨true, true, fun _ => (httpCodeOk, body)⟩

def mainReader : CamHttpReader :=
  ⟨⟨ascii "cam", ascii "/json", mainName, []⟩, ⟨⟨5000, [], []⟩, [], 0⟩⟩

private theorem lookup_mainDocument {error : Json} {members number : List (List UInt8 × Json)}
    (hdoc : some (mainDocument error) = some (.object members))
    (hflow : members.lookup mainName = some (.object number)) :
    number.lookup errorKey = some error ∧ number.lookup valueKey = some (.string (ascii "5")) := by
  obtain rfl : _ = members := by simpa [mainDocument] using hdoc
  obtain rfl : _ = number := by simpa using hflow
  exact ⟨rfl, rfl⟩

private theorem libraryFor_documented {body : List UInt8} (hbody : body ≠ []) (doc : Json) :
    (libraryFor body doc).Documented := JsonAccess.ofParser_documented (if_neg hbody.symm)

theorem libraryFor_parses (body : List UInt8) (doc : Json) : (libraryFor body doc).deserializeJson body = some doc :=
  if_pos (rfl : body = body)

/-- With an empty error the reading is good and nothing else passes. -/
theorem acceptsGood_empty_error :
    let body := mainBody (ascii "\"\"")
    let lib := libraryFor body (mainDocument (.string []))
    AcceptsGood lib (getImport lib) mainName (answering body) mainReader := by
  intro body lib
  refine ((camHttp_acceptsGood_iff lib (libraryFor_documented (by decide) _) (answering body) mainReader).mpr
    fun heard hanswers => ⟨?_, fun h => absurd rfl h⟩).1
  obtain rfl : body = heard := (Prod.mk.inj hanswers.get).2
  intro members number text hdoc hflow hvalue _ _
  rw [libraryFor_parses] at hdoc
  obtain ⟨herror, hfive⟩ := lookup_mainDocument hdoc hflow
  obtain rfl : ascii "5" = text := by simpa [hfive] using hvalue
  exact ⟨.inr (.inl herror), _, ⟨none, [5], none, by decide⟩, by decide, by decide +kernel, rfl⟩

/-- A number for an error passes as no error. -/
theorem acceptsGood_number_error :
    ¬ ∀ (lib : JsonAccess) (net : CamNetwork) (r : CamHttpReader), lib.Documented →
      AcceptsGood lib (getImport lib) r.config.flowName net r := by
  intro h
  let body := mainBody (ascii "1")
  have hlib : (libraryFor body (mainDocument (.number (ascii "1")))).Documented :=
    libraryFor_documented (by decide) _
  have haccepts := (h _ (answering body) mainReader hlib).congr (getImport_eq _ _ _)
  have hpasses := (readFlow_acceptsGood_iff hlib).mp haccepts body ⟨rfl, rfl, rfl⟩
  have hpassed : ErrorPasses (some (.number (ascii "1"))) := fun text htext => by simp at htext
  have herror : ErrorGood (some (.number (ascii "1"))) :=
    (hpasses _ _ _ (libraryFor_parses _ _) rfl rfl (by decide) hpassed).1
  simp [ErrorGood] at herror

end CamHttpReader
end IotFirmware
