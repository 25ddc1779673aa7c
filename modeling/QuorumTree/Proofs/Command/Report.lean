import QuorumTree.Command.Run
import QuorumTree.Proofs.Text.Decimal
import QuorumTree.Proofs.Text.Hex

/-!
What commands print. In a report each value stands after its label, in a column that all values
begin at, and has a line of its own; only a name may run over several lines.
-/

namespace QuorumTree

/-! ### Values on one line -/

namespace Text

/-- The text has no line breaks. -/
def IsOneLine (text : String) : Prop :=
  '\n' ∉ text.toList

instance (text : String) : Decidable (IsOneLine text) :=
  inferInstanceAs (Decidable (_ ∉ _))

theorem IsOneLine.parts_eq {text : String} (h : IsOneLine text) : parts '\n' text = [text] := by
  rw [parts, splitChars_of_not_mem h, List.map_singleton, String.ofList_toList]

theorem IsOneLine.append {text other : String} (h : IsOneLine text) (hother : IsOneLine other) :
    IsOneLine (text ++ other) := by
  rw [IsOneLine, String.toList_append, List.mem_append, not_or]
  exact ⟨h, hother⟩

theorem isOneLine_toString (n : Nat) : IsOneLine (toString n) := by
  rw [IsOneLine, toList_toString]
  exact fun hbreak => absurd (isDigit_of_mem_toDigits hbreak) (by decide)

theorem isOneLine_toString_int (n : Int) : IsOneLine (toString n) := by
  cases n with
  | ofNat n => exact isOneLine_toString n
  | negSucc n =>
      have hsign : IsOneLine "-" := by decide +kernel
      exact hsign.append (isOneLine_toString (n + 1))

theorem isOneLine_encode (bytes : Bytes) : IsOneLine (Hex.encode bytes) := by
  rw [IsOneLine, Hex.encode, String.toList_ofList]
  exact fun hbreak => Hex.of_mem_encodeChars (P := (· ≠ '\n')) (by decide) hbreak rfl

theorem isOneLine_intercalate {separator : String} (hseparator : IsOneLine separator)
    {texts : List String} (h : ∀ text ∈ texts, IsOneLine text) :
    IsOneLine (String.intercalate separator texts) := by
  rw [IsOneLine, String.toList_intercalate]
  induction texts with
  | nil => exact List.not_mem_nil
  | cons text texts ih =>
      have htext := h text List.mem_cons_self
      cases texts with
      | nil => simpa [IsOneLine, List.intercalate] using htext
      | cons next texts =>
          have hrest := ih fun text htext => h text (List.mem_cons_of_mem _ htext)
          rw [List.map_cons, List.map_cons, List.intercalate_cons_cons, List.mem_append,
            List.mem_append, not_or, not_or]
          exact ⟨⟨htext, hseparator⟩, hrest⟩

end Text

/-! ### Tables -/

namespace Command

/-- The line tells a value under a label: blanks after the label fill the first twenty places, and
the value follows. -/
def Tells (line : String) (entry : String × String) : Prop :=
  ∃ blanks, entry.1.length + blanks = 20 ∧
    line = entry.1 ++ (String.ofList (List.replicate blanks ' ') ++ entry.2)

/-- The text can stand before the column of the values. -/
def IsLabel (text : String) : Prop :=
  text.length < 20 ∧ Text.IsOneLine text

instance (text : String) : Decidable (IsLabel text) :=
  inferInstanceAs (Decidable (_ ∧ _))

theorem tells_labelled {label : String} (h : IsLabel label) (value : String) :
    Tells (labelled label value) (label, value) := by
  have hlength : label.length + (19 - label.length + 1) = 20 := by
    have hlabel := h.1
    omega
  refine ⟨_, hlength, ?_⟩
  simp only [labelled, List.replicate_succ', String.ofList_append, String.append_assoc]

theorem Tells.isOneLine {line label value : String} (h : Tells line (label, value))
    (hlabel : IsLabel label) (hvalue : Text.IsOneLine value) : Text.IsOneLine line := by
  obtain ⟨blanks, -, rfl⟩ := h
  have hblanks : Text.IsOneLine (String.ofList (List.replicate blanks ' ')) := by
    rw [Text.IsOneLine, String.toList_ofList]
    exact fun hbreak => absurd (List.eq_of_mem_replicate hbreak) (by decide)
  exact Text.IsOneLine.append hlabel.2 (hblanks.append hvalue)

/-- Values of one line are printed in a table. -/
theorem tells_printed {labels values : List String} (hlabels : ∀ label ∈ labels, IsLabel label)
    (hvalues : ∀ value ∈ values, Text.IsOneLine value) :
    List.Forall₂ Tells (printed (List.zipWith labelled labels values)) (labels.zip values) := by
  induction labels generalizing values with
  | nil => exact .nil
  | cons label labels ih =>
      cases values with
      | nil => exact .nil
      | cons value values =>
          obtain ⟨hlabel, hlabels⟩ := List.forall_mem_cons.mp hlabels
          obtain ⟨hvalue, hvalues⟩ := List.forall_mem_cons.mp hvalues
          have htold := tells_labelled hlabel value
          rw [List.zipWith_cons_cons, List.zip_cons_cons, printed, List.flatMap_cons,
            (htold.isOneLine hlabel hvalue).parts_eq]
          exact .cons htold (ih hlabels hvalues)

/-! ### Reports -/

/-- The lines tell of a commitment and its output. Those for the name come first; each other value
has one line. -/
def ReportsCommit (lines : List String) (name : String) (commitment : Commitment)
    (output : OutputCommitment) : Prop :=
  ∃ named told, lines = Text.parts '\n' named ++ told ∧ Tells named ("Name:", name) ∧
    List.Forall₂ Tells told [
      ("Policy:", toString commitment.threshold.m ++ "-of-" ++ toString commitment.threshold.n),
      ("Leaves:", toString commitment.tree.leafCount),
      ("Dropped:", toString commitment.dropped),
      ("Depth:", toString commitment.tree.depth),
      ("Merkle root:", Hex.encode commitment.root.bytes),
      ("Internal key:", output.internalKey.hex),
      ("Output key:", Hex.encode output.outputKey.xOnly.bytes),
      ("Parity:", toString output.parity),
      ("scriptPubKey:", Hex.encode output.script)]

theorem reportsCommit_commitReport {commitment : Commitment}
    (h : commitment.stated = commitment.threshold.stated) (name : String)
    (output : OutputCommitment) :
    ReportsCommit (printed (commitReport name commitment output)) name commitment output := by
  have hpolicy : Text.IsOneLine
      (toString commitment.threshold.m ++ "-of-" ++ toString commitment.threshold.n) :=
    ((Text.isOneLine_toString _).append (by decide +kernel)).append (Text.isOneLine_toString _)
  have hlabels : ∀ label ∈ ["Policy:", "Leaves:", "Dropped:", "Depth:", "Merkle root:",
      "Internal key:", "Output key:", "Parity:", "scriptPubKey:"], IsLabel label := by
    decide +kernel
  have hvalues : ∀ value ∈ [
      toString commitment.threshold.m ++ "-of-" ++ toString commitment.threshold.n,
      toString commitment.tree.leafCount, toString commitment.dropped,
      toString commitment.tree.depth, Hex.encode commitment.root.bytes, output.internalKey.hex,
      Hex.encode output.outputKey.xOnly.bytes, toString output.parity, Hex.encode output.script],
      Text.IsOneLine value := by
    simp only [List.forall_mem_cons, List.not_mem_nil, false_imp_iff, implies_true, and_true]
    exact ⟨hpolicy, Text.isOneLine_toString _, Text.isOneLine_toString_int _,
      Text.isOneLine_toString _, Text.isOneLine_encode _, Text.isOneLine_encode _,
      Text.isOneLine_encode _, Text.isOneLine_toString _, Text.isOneLine_encode _⟩
  have hstated : toString commitment.stated =
      toString commitment.threshold.m ++ "-of-" ++ toString commitment.threshold.n := by
    rw [h]
    rfl
  refine ⟨labelled "Name:" name, _, ?_, tells_labelled (by decide +kernel) name,
    tells_printed hlabels hvalues⟩
  rw [commitReport, hstated]
  rfl

/-- The entries of a proof that is printed: the indices of the quorum in order, its place among the
leaves, its key and the leaf made from it, the root, and the proof. -/
theorem tells_proofReport (quorum : AggregatedKey Nat) (rank : Nat) (root : Bytes32)
    (proof : InclusionProof) :
    List.Forall₂ Tells (printed (proofReport quorum rank root proof)) [
      ("Combination:", String.intercalate "," (quorum.combination.map toString)),
      ("Leaf index:", toString rank),
      ("Aggregated key:", quorum.key.hex),
      ("Leaf hash:", Hex.encode quorum.leafHash.bytes),
      ("Merkle root:", Hex.encode root.bytes),
      ("Proof:", proof.hex)] := by
  have hindices : Text.IsOneLine (String.intercalate "," (quorum.combination.map toString)) := by
    refine Text.isOneLine_intercalate (by decide +kernel) fun text htext => ?_
    obtain ⟨index, -, rfl⟩ := List.mem_map.mp htext
    exact Text.isOneLine_toString index
  have hlabels : ∀ label ∈ ["Combination:", "Leaf index:", "Aggregated key:", "Leaf hash:",
      "Merkle root:", "Proof:"], IsLabel label := by
    decide +kernel
  have hvalues : ∀ value ∈ [String.intercalate "," (quorum.combination.map toString),
      toString rank, quorum.key.hex, Hex.encode quorum.leafHash.bytes, Hex.encode root.bytes,
      proof.hex], Text.IsOneLine value := by
    simp only [List.forall_mem_cons, List.not_mem_nil, false_imp_iff, implies_true, and_true]
    exact ⟨hindices, Text.isOneLine_toString _, Text.isOneLine_encode _, Text.isOneLine_encode _,
      Text.isOneLine_encode _, Text.isOneLine_encode _⟩
  exact tells_printed hlabels hvalues

end Command

end QuorumTree
