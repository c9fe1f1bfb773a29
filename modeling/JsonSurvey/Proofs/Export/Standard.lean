import JsonSurvey.Proofs.Coordinate.Collection
import JsonSurvey.Proofs.Export.Outcome
import JsonSurvey.Proofs.Json.Standard
import JsonSurvey.Proofs.Source.Delivery

/-! Exports of standard JSON. Every floating-point number of the results is rounded from a number of
the text that was analysed, or from one that a coordinate in it is written with (`WritesDecimal`).
So the exported text is standard JSON as long as none of these is beyond the format, and it is not
if the rounding of one of them gets into the results (`run_standard`). -/

namespace JsonSurvey

/-- The decimal number that is written. -/
def Numeral.Plain.decimal (n : Plain) : Decimal where
  coefficient := Text.toNat (n.whole ++ n.fraction)
  exponent := -n.fraction.length

namespace Json

theorem IsTextual.not_hasFloat {v : Value} (h : IsTextual v) (x : Binary64) : ¬ v.HasFloat x := by
  induction h with
  | null | bool | string => nofun
  | list _ ih =>
    intro hx
    obtain ⟨e, he, hx⟩ := Value.hasFloat_array.mp hx
    exact ih e he hx
  | object _ _ ih =>
    intro hx
    obtain ⟨m, hm, hx⟩ := Value.hasFloat_object.mp hx
    exact ih m hm hx

end Json

namespace Export

open Coordinate (mention?)

/-- A decimal number that is rounded from a JSON text: a number of its own with a fraction or an
exponent, or one of a coordinate that is mentioned in a string of its document. -/
inductive WritesDecimal (t : Text) : Decimal → Prop
  | number {n : Json.Number} : Json.HasNumber t n → n.IsRounded → WritesDecimal t n.decimal
  | coordinate {document : Value} {s : Text} {m : Coordinate.Mention} {n : Numeral.Plain} :
    Json.decode t = .ok document → s ∈ document.strings → mention? s = some m →
    n = m.lat ∨ n = m.lng → WritesDecimal t n.decimal

/-- A floating-point number is rounded from a decimal number that a text writes. -/
def RoundsDecimal (t : Text) (x : Binary64) : Prop :=
  ∃ negative d, WritesDecimal t d ∧ x = Binary64.ofDecimal negative d

variable {x : Binary64}

theorem hasFloat_of_mem_items {document item : Value} (h : item ∈ document.items)
    (hx : item.HasFloat x) : document.HasFloat x := by
  cases document with
  | array form es =>
    cases form with
    | list => exact .element h hx
    | tuple => exact List.mem_singleton.mp h ▸ hx
  | _ => exact List.mem_singleton.mp h ▸ hx

/-- The numbers of a coordinate of a document are rounded from those that it is written with. -/
theorem roundsDecimal_of_mem_collect {t : Text} {document : Value} {c : Coordinate}
    (hdecode : Json.decode t = .ok document) (hc : c ∈ Coordinate.collect document) :
    RoundsDecimal t c.lat ∧ RoundsDecimal t c.lng := by
  obtain ⟨m, hm, rfl⟩ := List.mem_map.mp hc
  rw [Coordinate.mentions_eq] at hm
  obtain ⟨s, hs, hmention⟩ := List.mem_filterMap.mp ((firstOccurrences_sublist _).mem hm)
  exact ⟨⟨m.lat.negative, _, .coordinate hdecode hs hmention (.inl rfl), rfl⟩,
    ⟨m.lng.negative, _, .coordinate hdecode hs hmention (.inr rfl), rfl⟩⟩

theorem hasFloat_results {variants coordinates : Value}
    (h : (results variants coordinates).HasFloat x) :
    variants.HasFloat x ∨ coordinates.HasFloat x := by
  obtain ⟨m, hm, hx⟩ := Value.hasFloat_object.mp h
  rcases List.mem_cons.mp hm with rfl | hm
  · exact .inl hx
  obtain rfl := List.mem_singleton.mp hm
  dsimp only at hx
  split at hx
  · exact absurd hx Value.not_hasFloat_emptyArray
  · exact .inr hx

section
variable {tree tree' : FileTree} {content : List Byte} {text : Text} {source : Source}
  {a : Analysis} {name? : Option Text} {directory path status : Text}

/-- What an analysis of a standard text shows has no floating-point number but those rounded from
decimal numbers of the text. -/
theorem roundsDecimal_of_hasFloat (hsource : source.Delivers tree content)
    (htext : Utf8.decode content = .ok text) (hstandard : Json.IsStandard text)
    (ha : (Analysis.ofSource tree source).result = .ok a)
    (hx : (results a.variantsValue a.coordinatesValue).HasFloat x) : RoundsDecimal text x := by
  rcases Analysis.ofSource_cases ha with
    ⟨hvariants, hcoordinates⟩ | ⟨document, hread, hcoordinates, hvariants⟩
  · rcases hasFloat_results hx with hx | hx
    · rw [Analysis.variantsValue, hvariants] at hx
      exact absurd hx Value.not_hasFloat_emptyArray
    · rw [Analysis.coordinatesValue, hcoordinates] at hx
      exact absurd hx Value.not_hasFloat_emptyArray
  have hdecode : Json.decode text = .ok document := by
    have hbytes := hsource.decodeBytes_eq_ok hread
    rw [Source.decodeBytes_eq, htext] at hbytes
    exact hbytes
  rcases hasFloat_results hx with hx | hx
  · obtain ⟨record, hrecord, hx⟩ := Value.hasFloat_array.mp hx
    obtain ⟨v, hv, rfl⟩ := List.mem_map.mp hrecord
    rcases hvariants with hnil | hcollect
    · rw [hnil] at hv
      contradiction
    obtain ⟨hschema, hitem⟩ :=
      Variant.isTextual_schema_of_mem (Source.read_isReadable hread) hcollect v hv
    obtain ⟨m, hm, hx⟩ := Value.hasFloat_object.mp hx
    rcases List.mem_cons.mp hm with rfl | hm
    · exact absurd hx (hschema.not_hasFloat x)
    obtain rfl := List.mem_singleton.mp hm
    obtain ⟨n, hn, hrounded, rfl⟩ :=
      Json.exists_number_of_decode hstandard hdecode x (hasFloat_of_mem_items hitem hx)
    exact ⟨n.negative, _, .number hn hrounded, rfl⟩
  · obtain ⟨record, hrecord, hx⟩ := Value.hasFloat_array.mp hx
    obtain ⟨c, hc, rfl⟩ := List.mem_map.mp hrecord
    rw [hcoordinates] at hc
    obtain ⟨hlat, hlng⟩ := roundsDecimal_of_mem_collect hdecode hc
    obtain ⟨m, hm, hx⟩ := Value.hasFloat_object.mp hx
    rcases List.mem_cons.mp hm with rfl | hm
    · rwa [Value.hasFloat_float.mp hx]
    obtain rfl := List.mem_singleton.mp hm
    rwa [Value.hasFloat_float.mp hx]

/-- An export that tells a path in its outcome has written a file there. -/
theorem write_eq_ok_of_run
    (h : (run tree a.variantsValue a.coordinatesValue name? directory).2.result =
      .ok ⟨some path, status⟩) :
    (run tree a.variantsValue a.coordinatesValue name? directory).1 =
        (write tree (results a.variantsValue a.coordinatesValue) name? directory).1 ∧
      (write tree (results a.variantsValue a.coordinatesValue) name? directory).2.result =
        .ok path := by
  cases hvoid : a.variantsValue.isVoid with
  | true =>
    rw [run, hvoid] at h
    cases h
  | false =>
    obtain ⟨htree, hresult⟩ :
        (run tree a.variantsValue a.coordinatesValue name? directory).1 = _ ∧ _ :=
      run_eq hvoid tree name? directory
    refine ⟨htree, ?_⟩
    rw [h] at hresult
    split at hresult
    · next hpath =>
      cases hresult
      exact hpath
    · split at hresult <;> cases hresult

/-- The analysis of a standard JSON text, exported. The file holds standard JSON exactly if all
floating-point numbers of the results are finite. None of them is anything but a number, and each is
rounded from a decimal number of the text, to a finite number exactly if that one is not beyond the
format. So the export is standard if no decimal number of the text is. -/
theorem run_standard (hsource : source.Delivers tree content)
    (htext : Utf8.decode content = .ok text) (hstandard : Json.IsStandard text)
    (ha : (Analysis.ofSource tree source).result = .ok a)
    (hrun : (run tree' a.variantsValue a.coordinatesValue name? directory).2.result =
      .ok ⟨some path, status⟩) :
    let written := results a.variantsValue a.coordinatesValue
    ∃ (texts : List Text) (content' : List Byte), texts.map .ok = Json.indented written ∧
      Utf8.Encodes texts.flatten content' ∧
      (run tree' a.variantsValue a.coordinatesValue name? directory).1.read path = .ok content' ∧
      (Json.IsStandard texts.flatten ↔ ∀ x, written.HasFloat x → x.IsFinite) ∧
      (∀ x, written.HasFloat x → x ≠ .nan ∧ ∃ negative d, WritesDecimal text d ∧
        x = Binary64.ofDecimal negative d ∧ (x.IsFinite ↔ ¬ d.Overflows)) ∧
      ((∀ d, WritesDecimal text d → ¬ d.Overflows) → Json.IsStandard texts.flatten) := by
  intro written
  have hreadable : Json.IsReadable written := isReadable_results
    (Analysis.isReadable_variantsValue ha) (Analysis.isReadable_coordinatesValue a)
  obtain ⟨htree, hpath⟩ := write_eq_ok_of_run hrun
  obtain ⟨texts, content', htexts, hcontent, hread, _⟩ :=
    exists_content_of_write (Json.isReadable_iff.mp hreadable).1 (Prod.eta _).symm hpath
  have hiff := Json.isStandard_indented_iff htexts
  have hrounds : ∀ x, written.HasFloat x → RoundsDecimal text x := fun x =>
    roundsDecimal_of_hasFloat hsource htext hstandard ha
  refine ⟨texts, content', htexts, hcontent, htree ▸ hread, hiff, fun x hx => ?_,
    fun hdecimals => ?_⟩
  · obtain ⟨negative, d, hd, rfl⟩ := hrounds x hx
    exact ⟨Binary64.ofDecimal_ne_nan negative d, negative, d, hd, rfl,
      Binary64.isFinite_ofDecimal_iff⟩
  · rw [hiff]
    intro x hx
    obtain ⟨negative, d, hd, rfl⟩ := hrounds x hx
    exact Binary64.isFinite_ofDecimal_iff.mpr (hdecimals d hd)

end

/-! ### A list with one number -/

/-- The text of a list with one number. -/
def numberText (n : Json.Number) : Text := 0x5B :: (n.text ++ [0x5D])

/-- The analysis of a list with one number. -/
def numberAnalysis (x : Binary64) : Analysis :=
  ⟨[⟨.object [("type", .string "number")], .float x⟩], [], Analysis.statusOfCounts 1 1 0⟩

section
variable {n : Json.Number} (h : n.IsWritten)
include h

theorem isStandard_numberText : Json.IsStandard (numberText n) := by
  have hvalue := (Json.IsText.numeral h.isNumeral).padded Json.isSpaces_nil Json.isSpaces_nil
  have hlist := hvalue.lastElement.array.padded Json.isSpaces_nil Json.isSpaces_nil
  refine ⟨[], ?_, List.forall_mem_nil _⟩
  simpa [numberText] using hlist

theorem ofSource_numberText (hx : n.value = .ok (.float x)) :
    (Analysis.ofSource .empty (.textStream (numberText n) 0 true)).result =
      .ok (numberAnalysis x) := by
  have hlist : Json.Reads Json.maxDepth 0 (numberText n) (.list [.float x]) :=
    Json.reads_array (by decide) Json.isSpaces_nil (Json.reads_number h hx)
      (Json.readsElements_nil Json.isSpaces_nil)
  have hread : ((Source.textStream (numberText n) 0 true).read .empty).result =
      .ok (.list [.float x]) := Json.decode_of_reads hlist
  rw [Analysis.ofSource_of_read_ok hread]
  cbv

end

theorem hasFloat_numberAnalysis {y : Binary64} :
    (results (numberAnalysis x).variantsValue (numberAnalysis x).coordinatesValue).HasFloat y ↔
      y = x := by
  constructor
  · intro hy
    rcases hasFloat_results hy with hy | hy
    · simpa [numberAnalysis, Analysis.variantsValue, Variant.record] using hy
    · simp [numberAnalysis, Analysis.coordinatesValue] at hy
  · rintro rfl
    refine .member List.mem_cons_self (.element (List.mem_singleton_self _) ?_)
    exact .member (.tail _ (List.mem_singleton_self _)) .self

/-- The export of a list with one number. -/
def exportNumber (x : Binary64) : FileTree × Report Outcome :=
  run .empty (numberAnalysis x).variantsValue (numberAnalysis x).coordinatesValue (some "a") "/"

/-- If the number has a text, it is exported, and as standard JSON exactly if it is finite. -/
theorem exportNumber_eq (h : (FileTree.writeChunks [] (Json.indented (results
      (numberAnalysis x).variantsValue (numberAnalysis x).coordinatesValue))).2 = none) :
    (exportNumber x).2.result =
        .ok ⟨some "/a.json", "Export successful! Saved to /a.json"⟩ ∧
      ∃ t content, Utf8.Encodes t content ∧ (exportNumber x).1.read "/a.json" = .ok content ∧
        (Json.IsStandard t ↔ x.IsFinite) := by
  have hschema : Json.IsReadable (.object [("type", .string "number")]) :=
    .object (List.nodup_singleton _) (List.forall_mem_singleton.mpr (.string _))
  have hvariants : Json.IsReadable (numberAnalysis x).variantsValue :=
    .list (List.forall_mem_singleton.mpr (Json.isReadable_pair (by decide) hschema (.float x)))
  have hreadable := isReadable_results hvariants
    (Analysis.isReadable_coordinatesValue (numberAnalysis x))
  have hpath : (write .empty (results (numberAnalysis x).variantsValue
      (numberAnalysis x).coordinatesValue) (some "a") "/").2.result = .ok "/a.json" := by
    rw [write_result makeDirectories_root, FileTree.write_snd startFile_root rfl, h]
    rfl
  obtain ⟨htree, hresult⟩ : (exportNumber x).1 = _ ∧ (exportNumber x).2.result = _ :=
    run_eq rfl .empty (some "a") "/"
  obtain ⟨texts, content, htexts, hcontent, hread, _⟩ :=
    exists_content_of_write (Json.isReadable_iff.mp hreadable).1 (Prod.eta _).symm hpath
  refine ⟨?_, texts.flatten, content, hcontent, ?_, ?_⟩
  · rw [hresult, hpath]
    rfl
  · rw [htree]
    exact hread
  · rw [Json.isStandard_indented_iff htexts]
    simp only [hasFloat_numberAnalysis, forall_eq]

/-- Zero is written as standard JSON. -/
theorem run_standard_zero :
    let n : Json.Number := ⟨false, "0", some "0", none⟩
    let x := Binary64.finite false ⟨0, by decide⟩
    Json.IsStandard (numberText n) ∧
      (Analysis.ofSource .empty (.textStream (numberText n) 0 true)).result =
        .ok (numberAnalysis x) ∧
      (exportNumber x).2.result =
        .ok ⟨some "/a.json", "Export successful! Saved to /a.json"⟩ ∧
      ∃ t content, Json.IsStandard t ∧ Utf8.Encodes t content ∧
        (exportNumber x).1.read "/a.json" = .ok content := by
  intro n x
  have hdigits : Text.IsDigits (Text.ofString "0") := List.all_eq_true.mp rfl
  have hn : n.IsWritten := by
    refine ⟨by decide, hdigits, .inl rfl, ?_, nofun⟩
    rintro _ ⟨⟩
    exact ⟨by decide, hdigits⟩
  have ha := ofSource_numberText hn (show n.value = .ok (.float x) from rfl)
  obtain ⟨hresult, _⟩ := exportNumber_eq (x := x) rfl
  have hencode := Utf8.encode_eq_ok_iff.mp (show Utf8.encode (numberText n) = .ok _ from rfl)
  have htext := Utf8.decode_eq_ok_iff.mpr hencode
  obtain ⟨texts, content, _, hcontent, hread, hiff, _⟩ :=
    run_standard (.textStream 0 htext) htext (isStandard_numberText hn) ha hresult
  refine ⟨isStandard_numberText hn, ha, hresult, texts.flatten, content, ?_, hcontent, hread⟩
  rw [hiff]
  intro y hy
  rw [hasFloat_numberAnalysis.mp hy]
  exact ⟨_, _, rfl⟩

/-- A number that is beyond the format is not written as standard JSON. -/
theorem run_overflow :
    let n : Json.Number := ⟨false, "1", none, some (false, "999")⟩
    let x := Binary64.infinite false
    Json.IsStandard (numberText n) ∧
      (Analysis.ofSource .empty (.textStream (numberText n) 0 true)).result =
        .ok (numberAnalysis x) ∧
      (exportNumber x).2.result =
        .ok ⟨some "/a.json", "Export successful! Saved to /a.json"⟩ ∧
      ∃ t content, ¬ Json.IsStandard t ∧ Utf8.Encodes t content ∧
        (exportNumber x).1.read "/a.json" = .ok content := by
  intro n x
  have hn : n.IsWritten := by
    refine ⟨by decide, List.all_eq_true.mp rfl, .inr (by decide), nofun, ?_⟩
    rintro _ ⟨⟩
    exact ⟨by decide, List.all_eq_true.mp rfl⟩
  obtain ⟨hresult, t, content, hcontent, hread, hiff⟩ := exportNumber_eq (x := x) rfl
  refine ⟨isStandard_numberText hn, ofSource_numberText hn rfl, hresult, t, content, ?_, hcontent,
    hread⟩
  rw [hiff]
  exact Binary64.not_isFinite_infinite false

end Export
end JsonSurvey
