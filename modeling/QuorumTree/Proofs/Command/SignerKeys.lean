import QuorumTree.Proofs.Command.Pipeline

/-!
Signers by key. A text of keys with commas between them names the same signers as the text of their
indices, as long as one of the keys has a letter in its hexadecimal text. Where none has, the keys
are taken for indices, which are far beyond any participant.
-/

namespace QuorumTree

/-! ### Joined parts -/

namespace Text

theorem splitChars_intercalate {separator : Char} {parts : List (List Char)} (hne : parts ≠ [])
    (h : ∀ part ∈ parts, separator ∉ part) :
    splitChars separator ([separator].intercalate parts) = parts := by
  induction parts with
  | nil => exact absurd rfl hne
  | cons part parts ih =>
      have hpart := h part List.mem_cons_self
      cases parts with
      | nil => rw [List.intercalate_singleton, splitChars_of_not_mem hpart]
      | cons next parts =>
          rw [List.intercalate_cons_cons, List.append_assoc, List.singleton_append,
            splitChars_append hpart,
            ih (List.cons_ne_nil _ _) fun other hother => h other (List.mem_cons_of_mem _ hother)]

/-- Something is written, with neither a blank nor a comma in it. -/
def IsPlain (text : String) : Prop :=
  text ≠ "" ∧ ∀ c ∈ text.toList, c ≠ ',' ∧ isBlank c = false

theorem isPlain_toString (n : Nat) : IsPlain (toString n) := by
  have hdigits : ∀ c ∈ (toString n).toList, c.isDigit = true := by
    rw [toList_toString]
    exact fun c => isDigit_of_mem_toDigits
  refine ⟨?_, fun c hc => ⟨?_, isBlank_of_isDigit (hdigits c hc)⟩⟩
  · intro h
    have hempty := congrArg String.toList h
    rw [toList_toString] at hempty
    exact Nat.toDigits_ne_nil hempty
  · rintro rfl
    exact absurd (hdigits _ hc) (by decide)

end Text

/-- Parts that were joined by commas are told apart again. -/
theorem filter_strip_parts_intercalate {parts : List String} (hne : parts ≠ [])
    (h : ∀ part ∈ parts, Text.IsPlain part) :
    ((Text.parts ',' (String.intercalate "," parts)).map Text.strip).filter (!·.isEmpty) =
      parts := by
  have hsplit : Text.splitChars ',' ([','].intercalate (parts.map String.toList)) =
      parts.map String.toList := by
    refine Text.splitChars_intercalate (by simpa using hne) ?_
    intro part hpart hcomma
    obtain ⟨text, htext, rfl⟩ := List.mem_map.mp hpart
    exact ((h text htext).2 _ hcomma).1 rfl
  have hstrip : (parts.map String.toList).map (Text.stripChars Text.isBlank) =
      parts.map String.toList := by
    rw [List.map_map]
    refine List.map_congr_left fun text htext => ?_
    exact Text.stripChars_eq_self fun c hc => ((h text htext).2 c hc).2
  have hkept : (parts.map String.toList).filter (!·.isEmpty) = parts.map String.toList := by
    refine List.filter_eq_self.mpr fun part hpart => ?_
    obtain ⟨text, htext, rfl⟩ := List.mem_map.mp hpart
    simpa using (h text htext).1
  rw [filter_strip_parts, strippedParts, String.toList_intercalate,
    show ",".toList = [','] from rfl, hsplit, hstrip, hkept, List.map_map]
  simp [Function.comp_def]

/-! ### The text of a key -/

namespace PublicKey

/-- There is a letter in the hexadecimal text of the key. -/
def hasLetter (key : PublicKey) : Bool :=
  key.hex.toList.any Char.isAlpha

theorem toList_hex (key : PublicKey) : key.hex.toList = Hex.encodeChars key.bytes :=
  String.toList_ofList

theorem length_toList_hex (key : PublicKey) : key.hex.toList.length = 66 := by
  rw [toList_hex, Hex.length_encodeChars, length_bytes]

theorem isPlain_hex (key : PublicKey) : Text.IsPlain key.hex := by
  have hdigits : ∀ n : Fin 16, Hex.digitChar n ≠ ',' ∧ Text.isBlank (Hex.digitChar n) = false := by
    decide
  refine ⟨fun h => ?_, fun c hc => ?_⟩
  · have hlength := key.length_toList_hex
    rw [h] at hlength
    cases hlength
  · rw [toList_hex] at hc
    exact Hex.of_mem_encodeChars (P := fun c => c ≠ ',' ∧ Text.isBlank c = false) hdigits hc

/-- The text of a key passes for a number exactly when it has no letter. -/
theorem all_isDigit_hex (key : PublicKey) : key.hex.toList.all Text.isDigit = !key.hasLetter := by
  have hdigits : ∀ n : Fin 16,
      Text.isDigit (Hex.digitChar n) = !(Hex.digitChar n).isAlpha := by decide
  rw [hasLetter, List.not_any_eq_all_not, toList_hex, Bool.eq_iff_iff, List.all_eq_true,
    List.all_eq_true]
  refine forall₂_congr fun c hc => ?_
  rw [Hex.of_mem_encodeChars (P := fun c => Text.isDigit c = !c.isAlpha) hdigits hc]

theorem isDigit_of_mem_hex {key : PublicKey} (h : key.hasLetter = false) {c : Char}
    (hc : c ∈ key.hex.toList) : c.isDigit = true := by
  have hdigits : ∀ n : Fin 16,
      (Hex.digitChar n).isAlpha = false → (Hex.digitChar n).isDigit = true := by decide
  have halpha : c.isAlpha = false := by
    simpa using List.any_eq_false.mp h c hc
  rw [toList_hex] at hc
  exact Hex.of_mem_encodeChars (P := fun c => c.isAlpha = false → c.isDigit = true) hdigits hc
    halpha

end PublicKey

theorem Text.le_ofDigits (first : Nat) (digits : List Nat) :
    first * 10 ^ digits.length ≤ digits.foldl (fun n d => 10 * n + d) first := by
  induction digits generalizing first with
  | nil => simp
  | cons digit digits ih =>
      rw [List.length_cons, List.foldl_cons, Nat.pow_succ]
      refine Nat.le_trans ?_ (ih _)
      rw [← Nat.mul_assoc, Nat.mul_right_comm]
      exact Nat.mul_le_mul_right _ (by omega)

theorem Text.ofDigits_lt (first : Nat) {digits : List Nat} (h : ∀ digit ∈ digits, digit < 10) :
    digits.foldl (fun n d => 10 * n + d) first < (first + 1) * 10 ^ digits.length := by
  induction digits generalizing first with
  | nil => simp
  | cons digit digits ih =>
      obtain ⟨hdigit, hdigits⟩ := List.forall_mem_cons.mp h
      rw [List.length_cons, List.foldl_cons, Nat.pow_succ]
      refine Nat.lt_of_lt_of_le (ih _ hdigits) ?_
      rw [← Nat.mul_assoc, Nat.mul_right_comm]
      exact Nat.mul_le_mul_right _ (by omega)

/-- The text of a key without a letter spells a number of sixty-five digits, the first of which is
the last one of the tag. -/
theorem PublicKey.exists_readInteger_hex {key : PublicKey} (h : key.hasLetter = false) :
    ∃ value : Nat, readInteger key.hex = .ok value ∧ 2 * 10 ^ 64 ≤ value ∧
      value < 10 ^ Text.maxDigits := by
  have hlength := key.length_toList_hex
  have hread := Text.of_isDigit key.hex (by rw [← List.length_pos_iff]; omega)
    (fun c => isDigit_of_mem_hex h) (by rw [hlength]; decide)
  refine ⟨_, by rw [readInteger, hread], ?_, ?_⟩
  · rw [toList_hex, bytes, Hex.encodeChars_cons, Text.ofDigits]
    simp only [List.map_cons, List.foldl_cons]
    refine Nat.le_trans ?_ (Text.le_ofDigits _ _)
    rw [List.length_map, Hex.length_encodeChars, key.xOnly.length_bytes]
    refine Nat.mul_le_mul_right _ ?_
    cases key.hasEvenY <;> decide
  · have hdigits : ∀ digit ∈ key.hex.toList.map fun c => c.toNat - 0x30, digit < 10 := by
      intro digit hdigit
      obtain ⟨c, hc, rfl⟩ := List.mem_map.mp hdigit
      have hrange := Text.toNat_of_isDigit (isDigit_of_mem_hex h hc)
      omega
    refine Nat.lt_of_lt_of_le (Text.ofDigits_lt 0 hdigits) ?_
    rw [List.length_map, hlength, Nat.zero_add, Nat.one_mul]
    exact Nat.pow_le_pow_right (by decide) (by decide)

/-! ### Reading -/

namespace Command

theorem readSigners_indices {indices : List Nat} (hne : indices ≠ [])
    (hbound : ∀ index ∈ indices, index < 10 ^ Text.maxDigits) :
    readSigners (String.intercalate "," (indices.map toString)) =
      .ok (indices.map fun index : Nat => .int index) := by
  refine readSigners_of_parts hne hbound (filter_strip_parts_intercalate (by simpa using hne) ?_)
  exact List.forall_mem_map.mpr fun index _ => Text.isPlain_toString index

/-- A text of keys is read as numbers unless there is a letter in it. -/
theorem readSigners_keys {keys : List PublicKey} (hne : keys ≠ []) :
    readSigners (String.intercalate "," (keys.map PublicKey.hex)) =
      if keys.any PublicKey.hasLetter then .ok (keys.map fun key => .text key.hex)
      else keys.mapM fun key => (readInteger key.hex).map .int := by
  have hplain : ∀ part ∈ keys.map PublicKey.hex, Text.IsPlain part :=
    List.forall_mem_map.mpr fun key _ => key.isPlain_hex
  have hparts := filter_strip_parts_intercalate (by simpa using hne) hplain
  have hfull : (keys.map PublicKey.hex).isEmpty = false := by
    rw [List.isEmpty_map]
    exact List.isEmpty_eq_false_iff.mpr hne
  have hdigits : ((keys.map PublicKey.hex).all fun part => part.toList.all Text.isDigit) =
      !keys.any PublicKey.hasLetter := by
    rw [List.all_map, List.not_any_eq_all_not]
    exact congrArg keys.all (funext PublicKey.all_isDigit_hex)
  rw [readSigners, hparts, hfull, hdigits]
  cases keys.any PublicKey.hasLetter with
  | true => simp only [Bool.not_true, Bool.and_false, Bool.false_eq_true, if_true, if_false,
      List.map_map, Function.comp_def]
  | false => simp only [Bool.not_false, Bool.and_true, Bool.false_eq_true, if_true, if_false,
      List.mapM_map, Function.comp_def]

/-- Keys without a letter are read as indices, too large for any participant. -/
theorem exists_readSigners_of_no_letter {keys : List PublicKey} (hne : keys ≠ [])
    (h : ∀ key ∈ keys, key.hasLetter = false) :
    ∃ values : List Int, values ≠ [] ∧
      (∀ value ∈ values, 2 * 10 ^ 64 ≤ value ∧ (Number.whole value).isWritable = true) ∧
      readSigners (String.intercalate "," (keys.map PublicKey.hex)) = .ok (values.map .int) := by
  have hread : ∀ key ∈ keys, ∃ value : Int, readInteger key.hex = .ok value := fun key hkey =>
    have ⟨value, hvalue, _⟩ := PublicKey.exists_readInteger_hex (h key hkey)
    ⟨value, hvalue⟩
  obtain ⟨values, hvalues⟩ := exists_mapM_eq_ok hread
  refine ⟨values, ?_, fun value hvalue => ?_, ?_⟩
  · rintro rfl
    rw [mapM_eq_ok_iff] at hvalues
    exact hne (List.forall₂_nil_right_iff.mp hvalues)
  · obtain ⟨key, hkey, hnumber⟩ := exists_of_mem_answers hvalues hvalue
    obtain ⟨number, hsame, hbound, hshort⟩ := PublicKey.exists_readInteger_hex (h key hkey)
    rw [hnumber, Except.ok.injEq] at hsame
    subst hsame
    rw [Number.isWritable_natCast, decide_eq_true hshort]
    exact ⟨by exact_mod_cast hbound, rfl⟩
  · have hletters : keys.any PublicKey.hasLetter = false :=
      List.any_eq_false.mpr fun key hkey => by rw [h key hkey]; exact Bool.false_ne_true
    rw [readSigners_keys hne, hletters, if_neg Bool.false_ne_true, mapM_eq_ok_iff,
      List.forall₂_map_right_iff]
    rw [mapM_eq_ok_iff] at hvalues
    refine hvalues.imp fun key value hvalue => ?_
    rw [hvalue]
    rfl

/-! ### Proving -/

variable [Machine] {desk : Desk} {commitment : Commitment} {name text other : String}

/-- What is printed depends on the signers only through what they resolve to. -/
theorem printProof_congr {members others : List Datum} (htext : readSigners text = .ok members)
    (hother : readSigners other = .ok others)
    (hresolve :
      Combination.resolve commitment.participants (.number commitment.stated.m) members =
        Combination.resolve commitment.participants (.number commitment.stated.m) others) :
    printProof commitment text = printProof commitment other := by
  have hindex : commitment.leafIndex (.list members) = commitment.leafIndex (.list others) := by
    change Combination.resolve _ _ members >>= _ = Combination.resolve _ _ others >>= _
    rw [hresolve]
  simp only [printProof, htext, hother, orExit_ok, pure_bind, Commitment.quorumOf,
    Commitment.spendProof, hindex]

/-- Up to the printing nothing depends on the signers. -/
theorem run_runProve_congr {row : StoredCommitment}
    (hfind : desk.store.find? (.text name) = some row)
    (hload : ∀ cache, desk.settings.newCache = .ok cache → ∃ ledger,
      (desk.store.load (controller desk.settings.maxCombinations) name).run
        (.withCache (some cache)) = (.ok commitment, ledger))
    (hprint : printProof commitment text = printProof commitment other) :
    (runProve name text).run desk = (runProve name other).run desk := by
  cases hcache : desk.settings.newCache with
  | error fault =>
      have hfail : (orFail (.error fault) : Command Cache).run desk =
        (.error (.fault fault), desk) := rfl
      rw [runProve, runProve, run_bind_of_ok (run_findRecord hfind),
        run_bind_of_ok (run_findRecord hfind), run_newCache_bind, run_newCache_bind, hcache,
        run_bind_of_error hfail, run_bind_of_error hfail]
  | ok cache =>
      obtain ⟨ledger, hrun⟩ := hload cache hcache
      rw [run_runProve hfind hcache hrun, run_runProve hfind hcache hrun, hprint]

/-- Numbers too large for any participant are refused, the first of them first. -/
theorem run_printProof_of_large {values : List Int} (hne : values ≠ [])
    (hlarge : ∀ value ∈ values, (commitment.participants.length : Int) ≤ value ∧
      (Number.whole value).isWritable = true)
    (htext : readSigners text = .ok (values.map .int)) :
    ∃ index : Int, (commitment.participants.length : Int) ≤ index ∧
      ∀ desk : Desk, (printProof commitment text).run desk =
        (.error (.exit ("Cannot prove signer subset: " ++ (Fault.signerRange index).message)),
          desk) := by
  obtain ⟨value, values, rfl⟩ := List.exists_cons_of_ne_nil hne
  obtain ⟨hbound, hshort⟩ := hlarge value List.mem_cons_self
  refine ⟨value, hbound, fun desk => run_printProof_refused htext ?_ rfl⟩
  have hfirst : Combination.indexOfNumber commitment.participants.length value =
      .error (.signerRange value) := by
    rw [Combination.indexOfNumber, if_neg fun h => by omega,
      Fault.telling_of_writable (List.forall_mem_singleton.mpr hshort)]
  have hresolve : Combination.resolve commitment.participants (.number commitment.stated.m)
      ((value :: values).map .int) = .error (.signerRange value) := by
    rw [Combination.resolve, Combination.memberIndices_map_int, List.mapM_cons, hfirst]
    rfl
  have hindex : commitment.leafIndex (.list ((value :: values).map .int)) =
      .error (.signerRange value) := by
    change Combination.resolve _ _ _ >>= _ = _
    rw [hresolve]
    rfl
  rw [Commitment.quorumOf, hindex]
  rfl

end Command

/-! ### Runs -/

namespace CommandLine

/-- Both runs read the same settings and ask for their requests on one database, that of a file. -/
def AskAlike (call other : CommandLine) (shelf : Shelf) (settings : Settings) (file : String)
    (request another : Request) : Prop :=
  ∃ url access, call.reading = .ok (settings, .run url request) ∧
    other.reading = .ok (settings, .run url another) ∧
    shelf.openUrl url = .ok (.file file access)

end CommandLine

namespace Shelf

variable [Machine]

/-- Whatever was run since, runs that prove for the signers of either text have the same outcome. -/
def ProvesAlike (shelf : Shelf) (file name text other : String) : Prop :=
  ∀ (later : List CommandLine) (prove again : CommandLine) (settings : Settings),
    prove.AskAlike again (shelf.after later) settings file (.prove name text) (.prove name other) →
      (prove.run (shelf.after later)).1 = (again.run (shelf.after later)).1

/-- Whatever was run since, every run that proves for the signers of a text, with a size for its
cache that is not negative, ends with this message. -/
def StopsProving (shelf : Shelf) (file name text message : String) : Prop :=
  ∀ (later : List CommandLine) (prove : CommandLine) (settings : Settings),
    prove.Asks (shelf.after later) settings file (.prove name text) → settings.IsValid →
      (prove.run (shelf.after later)).1.ending = .stopped message

section Saved

variable {shelf : Shelf} {file name text other : String} {controller : Controller}
  {request : PolicyRequest} {commitment : Commitment} {dropped : Number} {output : OutputCommitment}
  {id : Int} (hprimitive : controller.primitive = musig)
  (hcommitted : controller.committed request = .ok (commitment, dropped))
  (hfind : (shelf.table file).find? (.text name) = some (.of id (.text name) commitment output))

include hprimitive hcommitted hfind

theorem provesAlike
    (h : Command.printProof (commitment.reloaded output.internalKey) text =
      Command.printProof (commitment.reloaded output.internalKey) other) :
    shelf.ProvesAlike file name text other := by
  rintro later prove again settings ⟨url, access, hreading, hagain, hopened⟩
  have hfound := find?_after hfind later
  have hload : ∀ cache, settings.newCache = .ok cache → ∃ ledger,
      (((shelf.after later).table file).load (Command.controller settings.maxCombinations)
        name).run (.withCache (some cache)) =
          (.ok (commitment.reloaded output.internalKey), ledger) := fun cache hcache =>
    Store.exists_load hcommitted hfound hprimitive.symm rfl
      (Ledger.isFaithful_withCache_create hcache)
  have hrun (isWritable : Bool) :
      ((Request.prove name text).run prove.columns).run
          ⟨settings, (shelf.after later).table file, isWritable, [], []⟩ =
        ((Request.prove name other).run again.columns).run
          ⟨settings, (shelf.after later).table file, isWritable, [], []⟩ :=
    Command.run_runProve_congr hfound hload h
  rw [(CommandLine.run_of_openUrl hreading hopened).1,
    (CommandLine.run_of_openUrl hagain hopened).1, Request.outcome, Request.outcome, hrun]

theorem stopsProving {message : String}
    (h : ∀ desk : Desk,
      (Command.printProof (commitment.reloaded output.internalKey) text).run desk =
        (.error (.exit message), desk)) :
    shelf.StopsProving file name text message := by
  intro later prove settings hprove hvalid
  obtain ⟨desk, -, -, hstops⟩ := CommandLine.exists_printProof hprove hvalid hprimitive hcommitted
    (find?_after hfind later)
  exact hstops message desk (h desk)

end Saved

end Shelf

/-- Signers named by their keys. Take a commit that ended well, on any shelf, and as many of its
participants as its threshold asks for. Whatever is run later, a run that proves for the text of
their keys has the same outcome as one that proves for the text of their indices, in whatever order
each text lists them, if there is a letter in the hexadecimal text of one of the keys. If there is
none, the keys are taken for indices, and every run that proves for them, with a size for its cache
that is not negative, ends with the first of these out of range. -/
theorem prove_by_keys [Machine] {commit : CommandLine} {shelf : Shelf} {settings : Settings}
    {file name pubkeys : String} {threshold maxCombinations : Int} {budget : Option Int}
    {internalKey : Option String}
    (hasks : commit.Asks shelf settings file
      (.commit name pubkeys threshold budget internalKey maxCombinations))
    (hdone : (commit.run shelf).1.ending = .done) :
    ∃ keys participants : List PublicKey, Datum.readKeys (.text pubkeys) = .ok keys ∧
      participants.Perm keys ∧ IsAscendingKeys participants ∧
      ∀ (indices : List Nat) (signers : List PublicKey), indices.Nodup →
        (indices.length : Int) = threshold → (∀ index ∈ indices, index < participants.length) →
        signers.Perm (Combination.keysIn participants indices) →
        ((∃ signer ∈ signers, signer.hasLetter = true) →
          (commit.run shelf).2.ProvesAlike file name
            (String.intercalate "," (signers.map PublicKey.hex))
            (String.intercalate "," (indices.map toString))) ∧
        ((∀ signer ∈ signers, signer.hasLetter = false) →
          ∃ index : Int, participants.length ≤ index ∧
            (commit.run shelf).2.StopsProving file name
              (String.intercalate "," (signers.map PublicKey.hex))
              s!"Cannot prove signer subset: Participant index {index} out of range") := by
  obtain ⟨keys, key, commitment, output, hkeys, hkey, hadds, htable⟩ :=
    CommandLine.exists_adds hasks hdone
  obtain ⟨dropped, hcommitted⟩ := hadds.committed
  have hof := (isOf_of_committed hcommitted).1
  have hfind : ((commit.run shelf).2.table file).find? (.text name) = some _ :=
    htable ▸ hadds.find?
  obtain ⟨again, hagain⟩ := Commitment.exists_isOf_reloaded hcommitted rfl output.internalKey
  refine ⟨keys, commitment.participants, hkeys, hof.perm_participants, hof.ascending,
    fun indices signers hnodup hlength hlt hsigners => ?_⟩
  have hcount : signers.length = indices.length :=
    hsigners.length_eq.trans (Combination.forall₂_keysIn hlt).length_eq.symm
  rw [← hof.m_eq, Int.natCast_inj] at hlength
  rw [← hof.n_eq] at hlt
  obtain ⟨combination, hperm, hquorum⟩ := Combination.exists_isQuorum hnodup hlength hlt
  have hnamed : signers.Perm (Combination.keysIn commitment.participants combination) :=
    hsigners.trans (hperm.symm.filterMap _)
  have hone := commitment.threshold.one_le
  have hindices : indices ≠ [] := List.ne_nil_of_length_pos (by omega)
  have hne : signers ≠ [] := List.ne_nil_of_length_pos (by omega)
  refine ⟨fun hletter => ?_, fun hletters => ?_⟩
  -- The letter makes keys of the first text; both texts then name one combination.
  · obtain ⟨hn, -, -⟩ := StoredCommitment.bounds_of_textBytes_le hof hadds.fits
    have hread : Command.readSigners (String.intercalate "," (signers.map PublicKey.hex)) = _ :=
      Command.readSigners_keys hne
    rw [List.any_eq_true.mpr hletter, if_pos rfl] at hread
    have hplain := Command.readSigners_indices hindices fun index hindex =>
      Nat.lt_of_lt_of_le (hlt index hindex) hn
    refine Shelf.provesAlike rfl hcommitted hfind (Command.printProof_congr hread hplain ?_)
    rw [hagain.resolve_indices hperm hquorum]
    refine Combination.resolve_of_names hagain.ascending.nodup hagain.settled hagain.n_eq.symm
      hquorum (.keys ?_ hnamed)
    rw [Denote, mapM_eq_ok_iff, List.forall₂_map_left_iff, List.forall₂_same]
    exact fun signer _ => signer.ofHex_hex
  · obtain ⟨values, hvalues, hlarge, hread⟩ := Command.exists_readSigners_of_no_letter hne hletters
    -- A row that can be stored has far fewer participants.
    have hfew := (StoredCommitment.length_le_of_textBytes_le hadds.fits).1
    have hsmall : maxRowBytes < 2 * 10 ^ 64 := by decide
    have hbound : ∀ value ∈ values,
        ((commitment.reloaded output.internalKey).participants.length : Int) ≤ value ∧
          (Number.whole value).isWritable = true := by
      intro value hvalue
      obtain ⟨hlarge, hshort⟩ := hlarge value hvalue
      refine ⟨?_, hshort⟩
      change (commitment.participants.length : Int) ≤ value
      omega
    obtain ⟨index, hindex, hstops⟩ := Command.run_printProof_of_large hvalues hbound hread
    exact ⟨index, hindex, Shelf.stopsProving rfl hcommitted hfind hstops⟩

/-! ### One of two

A policy of two participants, of which only the second one has a letter in its key. -/

namespace OneOfTwo

open TwoOfThree (firstKey callFor)

def lastKey : PublicKey :=
  ⟨0xc, 0x44b05ab13c36fe7915d3c977fffde51e59c7a2ce8b85efb1b84aaf9f89cf80a4, by decide +kernel⟩

/-- The aggregate of the first key alone. -/
def first : AggregatedKey Nat where
  combination := [0]
  key :=
    ⟨0xe51c9071c473fba85a11faa163a4f0a76721ea1dae0fb14fde6d966e527c2b48,
      0xd54a962027338dccf243dced7eb4210cef49f76fc8a88a04827e50d0e00f1110,
      by decide +kernel⟩
  coefficients := [0xc86c672bfa0cacc08cdf107dbcec486997ffa35d127ff24098c69832ff3dcf6f]

/-- The aggregate of the last key alone. -/
def last : AggregatedKey Nat where
  combination := [1]
  key :=
    ⟨0xb9b67537621719667dce16e7de00ba5d21e428f5fdd4d77a9e24aa6923445908,
      0x475d0d6b731fc105169663a75c51e2858509a2a16a4932f8054b50835e6f06b7,
      by decide +kernel⟩
  coefficients := [0xfaf9c5c0971015b013b1bc97901d34f88fdaf9b4cb9269589a680002758628ba]

theorem one_le_two : 1 ≤ 2 := by decide

def commitment : Commitment where
  participants := [firstKey, lastKey]
  threshold := ⟨1, 2, by decide, one_le_two⟩
  stated := ⟨.whole 1, .whole 2⟩
  quorums := [first, last]
  tree := .build first.leafHash [last.leafHash]
  total := 2
  internalKey := .key firstKey
  budget := none

theorem mapM_quorumFor :
    [[0], [1]].mapM (quorumFor musig commitment.participants) = .ok commitment.quorums := by
  refine mapM_eq_ok_iff.mpr (.cons ?_ (.cons ?_ .nil))
  · exact (quorumFor_eq_ok_iff (by decide)).mpr ⟨rfl, by decide +kernel⟩
  · exact (quorumFor_eq_ok_iff (by decide)).mpr ⟨rfl, by decide +kernel⟩

theorem isAscendingKeys : IsAscendingKeys [firstKey, lastKey] := by
  rw [IsAscendingKeys]
  decide +kernel

theorem sortParticipants_keys :
    sortParticipants [.key lastKey, .key firstKey] = .ok [firstKey, lastKey] :=
  sortParticipants_eq_ok_iff.mpr ⟨_, rfl, List.cons_ne_nil _ _, .swap _ _ _, isAscendingKeys⟩

theorem committed_policyRequest :
    (Command.controller 1000000).committed
      (Command.policyRequest [lastKey, firstKey] 1 none (some firstKey)) =
        .ok (commitment, .whole 0) := by
  simp only [Controller.committed, bind_eq_ok_iff]
  exact ⟨_, rfl, _, sortParticipants_keys, commitment.stated, rfl, commitment.threshold, rfl,
    .whole 1000000, rfl, 2, rfl, commitment.threshold, rfl, ⟨[[0], [1]], .whole 2, none, 2⟩,
    (pruneData_eq_ok_iff (Source.lists_quorums _)).mpr ⟨_, none, rfl, rfl, rfl, rfl⟩, (), rfl,
    commitment.quorums, mapM_quorumFor, commitment.tree, rfl, .key firstKey, rfl, rfl⟩

def output : OutputCommitment where
  internalKey := firstKey
  root := commitment.root
  outputKey :=
    ⟨0x2da71ef4ffadb7d2273e66e4d84ea730cd24f23b97e388496cec9f74b25aec2b,
      0x844aeadf92592e0f786015c38c826e7387127c0b459cb2b72541305fd304578f,
      by decide +kernel⟩

theorem output_commitment : commitment.output = .ok output := by
  decide +kernel

def pubkeys : String :=
  "02000000000000000000000000000000000000000000000000000000000000000c," ++
  "020000000000000000000000000000000000000000000000000000000000000001"

def commitRequest : Request :=
  .commit "pair" pubkeys 1 none (some firstKey.hex) 1000000

def commitCall : CommandLine :=
  callFor ["commit", "--name", "pair", "--pubkeys", pubkeys, "-m", "1", "--internal-key",
    firstKey.hex]

def proveCall (signers : String) : CommandLine :=
  callFor ["prove", "--name", "pair", "--signers", signers]

theorem reading_commitCall :
    commitCall.reading = .ok (Settings.default, .run defaultUrl commitRequest) := by
  decide +kernel

theorem asks_commitCall : commitCall.Asks Shelf.empty Settings.default usualFile commitRequest :=
  CommandLine.asks_of_reading reading_commitCall Shelf.empty

theorem readKeys_pubkeys : Datum.readKeys (.text pubkeys) = .ok [lastKey, firstKey] := by
  decide +kernel

theorem textBytes_record :
    (StoredCommitment.of 1 (.text "pair") commitment output).textBytes ≤ maxRowBytes := by
  decide +kernel

theorem ending_commitCall : (commitCall.run Shelf.empty).1.ending = .done := by
  obtain ⟨after, hrun⟩ : ∃ after, (commitRequest.run commitCall.columns).run
      ⟨Settings.default, Store.empty, true, [], []⟩ = (.ok (), after) :=
    Command.exists_run_runCommit rfl readKeys_pubkeys TwoOfThree.mapM_ofHex_firstKey
      Settings.isValid_default committed_policyRequest output_commitment ⟨rfl, rfl, rfl⟩
      textBytes_record rfl
  have houtcome : commitRequest.outcome Settings.default commitCall.columns true
      (Shelf.empty.table usualFile) = ⟨.done, after.lines, after.notices, after.store⟩ :=
    Request.outcome_of_run_eq_ok hrun
  rw [CommandLine.run_of_reading reading_commitCall, houtcome]

theorem reading_proveCall {signers : String}
    (h : signers = "0" ∨ signers = "1" ∨ signers = firstKey.hex ∨ signers = lastKey.hex) :
    (proveCall signers).reading =
      .ok (Settings.default, .run defaultUrl (.prove "pair" signers)) := by
  rcases h with rfl | rfl | rfl | rfl <;> decide +kernel

theorem listsSigners_zero : ListsSigners commitment.threshold "0" [0] where
  spelled := .last (.index [] 0 [] nofun nofun)
  nodup := by decide
  length_eq := rfl
  lt := by decide

theorem ending_proveCall_zero :
    ((proveCall "0").run (Shelf.empty.after [commitCall])).1.ending = .done := by
  obtain ⟨keys, key, made, output, hkeys, hkey, hadds, htable⟩ :=
    CommandLine.exists_adds asks_commitCall ending_commitCall
  rw [readKeys_pubkeys, Except.ok.injEq] at hkeys
  rw [TwoOfThree.mapM_ofHex_firstKey, Except.ok.injEq] at hkey
  subst hkeys hkey
  obtain ⟨dropped, hcommitted⟩ := hadds.committed
  obtain rfl : commitment = made :=
    congrArg Prod.fst (Except.ok.inj (committed_policyRequest.symm.trans hcommitted))
  have hfind : ((commitCall.run Shelf.empty).2.table usualFile).find? (.text "pair") = some _ :=
    htable ▸ hadds.find?
  obtain ⟨quorum, proof, -, hproves, -⟩ := Shelf.exists_proves rfl rfl hcommitted hfind hadds.fits
    listsSigners_zero (.refl [0]) (by decide) (by decide)
  exact (hproves [] _ _ (CommandLine.asks_of_reading (reading_proveCall (.inl rfl)) _)
    Settings.isValid_default).1

/-- The last key proves as its index does. The first key does not: it is refused, and its index is
not. -/
theorem prove_by_keys_one_of_two :
    let shelf := Shelf.empty.after [commitCall]
    commitCall.Asks Shelf.empty Settings.default usualFile commitRequest ∧
      (commitCall.run Shelf.empty).1.ending = .done ∧
      ((proveCall lastKey.hex).run shelf).1 = ((proveCall "1").run shelf).1 ∧
      (∃ message, ((proveCall firstKey.hex).run shelf).1.ending = .stopped message) ∧
      ((proveCall "0").run shelf).1.ending = .done := by
  obtain ⟨keys, participants, hkeys, hperm, hascending, hnamed⟩ :=
    prove_by_keys asks_commitCall ending_commitCall
  rw [readKeys_pubkeys, Except.ok.injEq] at hkeys
  subst hkeys
  obtain rfl : [firstKey, lastKey] = participants :=
    (isAscendingKeys.mergeSort_eq (.swap _ _ _)).symm.trans (hascending.mergeSort_eq hperm)
  have hlast := (hnamed [1] [lastKey] (by decide) rfl (by decide) (.refl _)).1
    ⟨lastKey, List.mem_singleton_self _, by decide +kernel⟩
  obtain ⟨index, -, hfirst⟩ := (hnamed [0] [firstKey] (by decide) rfl (by decide) (.refl _)).2
    (List.forall_mem_singleton.mpr (by decide +kernel))
  have hrefused := hfirst [] _ _
    (CommandLine.asks_of_reading (reading_proveCall (.inr (.inr (.inl rfl)))) _)
    Settings.isValid_default
  refine ⟨asks_commitCall, ending_commitCall, ?_, ⟨_, hrefused⟩, ending_proveCall_zero⟩
  exact hlast [] _ _ _ ⟨defaultUrl, .create, reading_proveCall (.inr (.inr (.inr rfl))),
    reading_proveCall (.inr (.inl rfl)), Shelf.openUrl_defaultUrl _⟩

end OneOfTwo

end QuorumTree
