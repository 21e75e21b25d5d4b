import TemplateCache.Proofs.Options.Equality
import TemplateCache.Proofs.Run.Soundness

/-!
# Which options share artifacts

An artifact's name holds the digest of the options' key, so calls whose options have different keys
answer with different paths, whatever else they have in common. Options with the same key get the
same names, and where their transforms read more of them than the key, one call is answered with
what was made for the other.

Hence options that differ should have different keys. They have, unless they are confused
(`different_options_share_iff_confused`). That confused options exist at all is a defect: a key is
written as it is, though it may hold the sign and the line end that were meant to stand after it,
and a date-time is written as the table that stands for it.

And options that are equal should have the same key. They have if their zeros have the same signs
(`equal_options_share_iff_zeroSigns`). The zeros of different sign are equal and are written
differently, which is another defect: calls that are asked for the same make two artifacts.
-/

namespace TemplateCache

open Toml

/-- Calls whose options have different keys answer with different paths. -/
theorem path_ne_of_transformKey_ne {w w' : World} {call call' : Call} {p q : Path}
    (hdigests : DistinctDigests [w.record call, w'.record call'])
    (hfitting : Fitting [w.record call, w'.record call'])
    (hkey : call.options.transformKey ≠ call'.options.transformKey)
    (hp : (w.record call).result = .ok p) (hq : (w'.record call').result = .ok q) : p ≠ q := by
  obtain ⟨contents, canonical, store, opened, harrived, hpath⟩ := named_of_ok hp
  obtain ⟨contents', canonical', store', opened', harrived', hpath'⟩ := named_of_ok hq
  rintro rfl
  -- equal paths end with the same name, and the names hold the digests
  have hsegments := congrArg Path.segments (hpath.symm.trans hpath')
  rw [Store.segments_artifactPath _ (Record.isProper_nameOf ..),
    Store.segments_artifactPath _ (Record.isProper_nameOf ..)] at hsegments
  obtain ⟨-, hlast⟩ := List.append_inj' hsegments (by simp)
  have hname := Segment.name.inj (List.cons.inj hlast).1
  have hparts := contentParts_of_name hdigests hfitting List.mem_cons_self
    (List.mem_cons_of_mem _ List.mem_cons_self) harrived harrived' hname
  simp only [Record.contentParts, List.cons.injEq, and_true] at hparts
  exact hkey (Utf8.encode_injective hparts.2.1)

/-- **Options that differ share artifacts exactly when they are confused.** Then they have the same
key and any compiler gives their artifacts the same names; otherwise the keys differ, and no two
calls with them answer with the same path. -/
theorem different_options_share_iff_confused {a b : Options} (ha : a.Plain) (hb : b.Plain)
    (hdiffer : Value.entriesEqual a.extra b.extra = false) :
    (a.transformKey = b.transformKey ↔ a.Confused b) ∧
    (a.Confused b → ∀ (c : Compiler) (canonical : Path) (contents : Bytes),
      c.artifactName a canonical contents = c.artifactName b canonical contents) ∧
    (¬ a.Confused b → ∀ {w w' : World} {call call' : Call} {p q : Path},
      call.options = a → call'.options = b →
      DistinctDigests [w.record call, w'.record call'] →
      Fitting [w.record call, w'.record call'] →
      (w.record call).result = .ok p → (w'.record call').result = .ok q → p ≠ q) := by
  have hkeys : a.transformKey = b.transformKey ↔ a.Confused b := by
    rw [Options.transformKey_eq_iff ha hb]
    exact or_iff_right (Options.extra_ne_of_entriesEqual ha hdiffer)
  refine ⟨hkeys, fun hconfused c canonical contents => ?_, fun hnot => ?_⟩
  · unfold Compiler.artifactName
    rw [hkeys.mpr hconfused]
  · rintro w w' call call' p q rfl rfl hdigests hfitting hp hq
    exact path_ne_of_transformKey_ne hdigests hfitting (fun h => hnot (hkeys.mp h)) hp hq

/-! ### Two layouts -/

/-- A call for the sample source with a transform that reads the layout. -/
def layoutCall (o : Options) : Call :=
  { sampleCall with compiler := sampleCall.compiler.withTransform .wrap, options := o }

/-- A layout and nothing else. -/
def layoutOptions (layout : String) : Options :=
  Options.none.withExtra "layout" (.scalar (.string layout))

def htmlRecord : Record := firstWorld.record (layoutCall (layoutOptions "html"))

/-- The call for the other layout, after the first one. -/
def textRecord : Record :=
  (firstWorld.afterCall (layoutCall (layoutOptions "html"))).record
    (layoutCall (layoutOptions "text"))

theorem layoutRecords_read : Reads [htmlRecord, textRecord] [1, 2, 3] := by
  intro r hr
  rcases List.mem_cons.mp hr with rfl | hr
  · decide +kernel
  · rw [List.mem_singleton.mp hr]
    decide +kernel

theorem different_layouts_share_nothing : ∃ p q, htmlRecord.result = .ok p ∧
    textRecord.result = .ok q ∧ p ≠ q := by
  have hresult : htmlRecord.result = .ok (.ofString
      "/out/template_root_a_0568b0a648ab92e2_38891b6d_0ef81740eea77972c0a64c3c7bceedce.tpl") := by
    decide +kernel
  have hresult' : textRecord.result = .ok (.ofString
      "/out/template_root_a_0568b0a648ab92e2_7a11a703_61c0ad2715f20747482570d54a629ed9.tpl") := by
    decide +kernel
  have hplain : ∀ layout, (layoutOptions layout).Plain := fun layout => ⟨trivial, trivial⟩
  obtain ⟨hkeys, -, hpaths⟩ := different_options_share_iff_confused (hplain "html") (hplain "text")
    (by decide +kernel)
  have hdiffer : (layoutOptions "html").transformKey ≠ (layoutOptions "text").transformKey := by
    decide +kernel
  exact ⟨_, _, hresult, hresult', hpaths (fun h => hdiffer (hkeys.mpr h)) rfl rfl
    (layoutRecords_read.distinctDigests (by decide +kernel))
    (layoutRecords_read.fitting (by decide +kernel)) hresult hresult'⟩

/-! ### A key that swallows a line -/

/-- A value under `a`, and a layout. -/
def apartOptions : Options :=
  (layoutOptions "html").withExtra "a" (.scalar (.integer 1))

/-- One value, whose key is the first line of those options and the key of the second. -/
def joinedOptions : Options :=
  Options.none.withExtra "a=1\nlayout" (.scalar (.string "html"))

/-- The options without a layout are answered with what was made for those with one. -/
theorem joined_answered_with_apart :
    Value.entriesEqual apartOptions.extra joinedOptions.extra = false ∧
    apartOptions.transformKey = joinedOptions.transformKey ∧
    ∃ p, (firstWorld.record (layoutCall apartOptions)).result = .ok p ∧
      ((firstWorld.afterCall (layoutCall apartOptions)).record
        (layoutCall joinedOptions)).result = .ok p ∧
      ((firstWorld.afterCall (layoutCall apartOptions)).record
        (layoutCall joinedOptions)).after.system.contents p =
          .ok (Utf8.ofString "[html]" ++ [1, 2, 3]) ∧
      Transform.wrap.apply [1, 2, 3] joinedOptions = .ok (Utf8.ofString "[none]" ++ [1, 2, 3]) := by
  refine ⟨by decide +kernel, by decide +kernel, .ofString
    "/out/template_root_a_0568b0a648ab92e2_b5ee382d_7c68e2625a3ee00c3fac1fba64316fd7.tpl", ?_⟩
  decide +kernel

/-! ## Options that are equal -/

/-- **Equal options share artifacts exactly when their zeros have the same signs.** Then they have
the same key, and artifacts get the same name for the one as for the other; otherwise the keys
differ, and no two calls with them answer with the same path. -/
theorem equal_options_share_iff_zeroSigns {a b : Options} (h : a.equal b = true) :
    (a.transformKey = b.transformKey ↔ a.zeroSigns = b.zeroSigns) ∧
    (a.zeroSigns = b.zeroSigns → ∀ (source : Path) (fingerprint contents : Bytes),
      ArtifactName.forSource source fingerprint (Utf8.encode a.transformKey) contents =
        .forSource source fingerprint (Utf8.encode b.transformKey) contents) ∧
    (a.zeroSigns ≠ b.zeroSigns → ∀ {w w' : World} {call call' : Call} {p q : Path},
      call.options = a → call'.options = b →
      DistinctDigests [w.record call, w'.record call'] →
      Fitting [w.record call, w'.record call'] →
      (w.record call).result = .ok p → (w'.record call').result = .ok q → p ≠ q) := by
  have hkeys := Options.transformKey_eq_iff_zeroSigns h
  refine ⟨hkeys, fun hsigns source fingerprint contents => ?_, fun hsigns => ?_⟩
  · rw [hkeys.mpr hsigns]
  · rintro w w' call call' p q rfl rfl hdigests hfitting hp hq
    exact path_ne_of_transformKey_ne hdigests hfitting (fun hkey => hsigns (hkeys.mp hkey)) hp hq

/-- Options with zeros inside an array and a table, and a destination. -/
def zerosOptions (destination : String) : Options :=
  (Options.none.withDestination (.ofString destination)).withExtra "limits"
    (.array [.scalar (.float .positiveZero),
      .table [("low", .scalar (.float .negativeZero)), ("since", .scalar (.boolean true))]])

/-- The destination may be spelled in another way. -/
theorem equal_zeros_share : (zerosOptions "out").equal (zerosOptions "out/.") = true ∧
    ArtifactName.forSource (.ofString "/a") [] (Utf8.encode (zerosOptions "out").transformKey) [] =
      .forSource (.ofString "/a") [] (Utf8.encode (zerosOptions "out/.").transformKey) [] := by
  have hequal : (zerosOptions "out").equal (zerosOptions "out/.") = true := by decide +kernel
  exact ⟨hequal, (equal_options_share_iff_zeroSigns hequal).2.1 rfl _ _ _⟩

/-! ### Two zeros -/

def zeroOptions (zero : Binary64) : Options :=
  Options.none.withExtra "margin" (.scalar (.float zero))

/-- A call that differs from the one before it by the sign of a zero does not find the artifact of
that one, though the options of both are equal. -/
theorem zeros_miss_each_other :
    (zeroOptions .positiveZero).equal (zeroOptions .negativeZero) = true ∧
    (zeroOptions .positiveZero).transformKey ≠ (zeroOptions .negativeZero).transformKey ∧
    ∃ p q, (firstWorld.record (layoutCall (zeroOptions .positiveZero))).result = .ok p ∧
      ((firstWorld.afterCall (layoutCall (zeroOptions .positiveZero))).record
        (layoutCall (zeroOptions .negativeZero))).result = .ok q ∧ p ≠ q := by
  refine ⟨by decide +kernel, by decide +kernel, .ofString
    "/out/template_root_a_0568b0a648ab92e2_45e0ca48_6d019ddd3f7d6169532199a0e287eef2.tpl", .ofString
    "/out/template_root_a_0568b0a648ab92e2_4e7f62d9_f37abe56cc2247c5f7cc2362b2d5d683.tpl", ?_⟩
  decide +kernel

end TemplateCache
