import Sluice.Graph.File
import Sluice.Proofs.Graph.Runnable
import Sluice.Proofs.Prelude

/-!
What is read from a graph file. A fractional number of a document is finite: one that would not be is
read as no value. So every number in the configurations of the graph is finite.
-/

namespace Sluice

theorem Json.insertEntry_subset (name : String) (item : Json) (entries : List (String × Json)) :
    insertEntry name item entries ⊆ (name, item) :: entries := by
  induction entries with
  | nil => exact List.Subset.refl _
  | cons entry rest ih =>
    unfold insertEntry
    split
    · exact List.Subset.refl _
    · split
      · exact List.cons_subset_cons _ (List.subset_cons_self _ _)
      · intro e he
        obtain rfl | he := List.mem_cons.mp he
        · exact List.mem_cons_of_mem _ List.mem_cons_self
        · obtain rfl | he := List.mem_cons.mp (ih he)
          · exact List.mem_cons_self
          · exact List.mem_cons_of_mem _ (List.mem_cons_of_mem _ he)

theorem Json.ofEntries_finite {entries : List (String × Json)}
    (h : ∀ entry ∈ entries, entry.2.allFinite = true) :
    (Json.ofEntries entries).allFinite = true := by
  have hfold (acc : List (String × Json)) (hacc : ∀ entry ∈ acc, entry.2.allFinite = true) :
      ∀ entry ∈ entries.foldl (fun acc e => insertEntry e.1 e.2 acc) acc, entry.2.allFinite = true := by
    induction entries generalizing acc with
    | nil => exact hacc
    | cons entry rest ih =>
      obtain ⟨hentry, hrest⟩ := List.forall_mem_cons.mp h
      refine ih hrest _ fun e he => ?_
      obtain rfl | he := List.mem_cons.mp (insertEntry_subset _ _ _ he)
      · exact hentry
      · exact hacc e he
  exact entriesFinite_iff.mpr (hfold [] fun _ he => absurd he List.not_mem_nil)

namespace Yaml.Part

theorem scalarJson_finite {tag : Option String} {style : Style} {text : String} {j : Json}
    (h : scalarJson tag style text = .ok j) : j.allFinite = true := by
  unfold scalarJson at h
  extract_lets number wanted at h
  have hnumber (plain : Plain) (h : number plain = .ok j) : j.allFinite = true := by
    cases plain with
    | float x =>
      obtain rfl := Except.ok.inj h
      split
      · assumption
      · rfl
    | tooLarge => cases h
    | null | bool | int | text =>
      obtain rfl := Except.ok.inj h
      rfl
  cases tag with
  | none =>
    dsimp only at h
    split at h
    · exact hnumber _ h
    · obtain rfl := Except.ok.inj h
      rfl
  | some tag =>
    -- a tag asks for null, a truth value, a number, or else leaves a text
    dsimp only at h
    split_ifs at h
    · split at h
      · obtain rfl := Except.ok.inj h
        rfl
      · cases h
    · split at h
      · exact hnumber _ h
      · cases h
    · split at h
      · exact hnumber (.float _) h
      · cases h
    · obtain rfl := Except.ok.inj h
      rfl
    · obtain rfl := Except.ok.inj h
      rfl

mutual

theorem nodeJson_finite {depth : Nat} {j : Json} : ∀ {n : Node}, nodeJson depth n = .ok j →
    j.allFinite = true
  | .scalar .., h => scalarJson_finite h
  | .sequence tag items, h => by
    unfold nodeJson at h
    obtain ⟨_, -, h⟩ := Except.bind_eq_ok.mp h
    split at h
    · cases h
    · obtain ⟨js, hjs, h⟩ := Except.bind_eq_ok.mp h
      obtain rfl := Except.ok.inj h
      exact Json.itemsFinite_iff.mpr (itemsJson_finite hjs)
  | .mapping tag entries, h => by
    unfold nodeJson at h
    obtain ⟨_, -, h⟩ := Except.bind_eq_ok.mp h
    split at h
    · cases h
    · obtain ⟨js, hjs, h⟩ := Except.bind_eq_ok.mp h
      obtain rfl := Except.ok.inj h
      exact Json.ofEntries_finite (entriesJson_finite hjs)
  | .alias n _, h => by
    unfold nodeJson at h
    exact nodeJson_finite h
  | .cycle, h => by cases h

theorem itemsJson_finite {depth : Nat} : ∀ {items : List Node} {js : List Json},
    itemsJson depth items = .ok js → ∀ j ∈ js, j.allFinite = true
  | [], _, h => by
    obtain rfl := Except.ok.inj h
    exact fun _ hj => absurd hj List.not_mem_nil
  | n :: rest, _, h => by
    unfold itemsJson at h
    obtain ⟨j, hj, h⟩ := Except.bind_eq_ok.mp h
    obtain ⟨js, hjs, h⟩ := Except.bind_eq_ok.mp h
    obtain rfl := Except.ok.inj h
    exact List.forall_mem_cons.mpr ⟨nodeJson_finite hj, itemsJson_finite hjs⟩

theorem entriesJson_finite {depth : Nat} :
    ∀ {entries : List (Node × Node)} {js : List (String × Json)}, entriesJson depth entries = .ok js →
      ∀ entry ∈ js, entry.2.allFinite = true
  | [], _, h => by
    obtain rfl := Except.ok.inj h
    exact fun _ hj => absurd hj List.not_mem_nil
  | (key, n) :: rest, _, h => by
    unfold entriesJson at h
    obtain ⟨name, -, h⟩ := Except.bind_eq_ok.mp h
    obtain ⟨j, hj, h⟩ := Except.bind_eq_ok.mp h
    obtain ⟨js, hjs, h⟩ := Except.bind_eq_ok.mp h
    obtain rfl := Except.ok.inj h
    exact List.forall_mem_cons.mpr ⟨nodeJson_finite hj, entriesJson_finite hjs⟩

end

end Yaml.Part

namespace Record

variable {δ α β : Type} {r : Record δ (α → β)} {name : String} {decode : δ → Except ShapeFault α}
  {before : Nat} {entries : Entries δ} {b : β}

theorem readField_eq_ok {absent : Except ShapeFault α} {index : Nat} {a : α}
    (h : readField name decode absent index entries = .ok a) :
    (∃ d, decode d = .ok a) ∨ absent = .ok a := by
  unfold readField at h
  split at h
  · split at h
    · split at h
      · exact .inl ⟨_, Except.mapError_eq_ok.mp h⟩
      · exact .inr (Except.mapError_eq_ok.mp h)
    · exact .inr (Except.mapError_eq_ok.mp h)
  · split at h
    · exact .inl ⟨_, Except.mapError_eq_ok.mp h⟩
    · exact .inr (Except.mapError_eq_ok.mp h)

theorem addField_eq_ok {absent : Entries δ → Nat → Except ShapeFault α}
    (h : (r.addField name decode absent).read before entries = .ok b) :
    ∃ f a, r.read before entries = .ok f ∧ b = f a ∧
      ((∃ d, decode d = .ok a) ∨ ∃ index, absent entries index = .ok a) := by
  simp only [addField] at h
  split at h
  · rename_i f a hf ha
    exact ⟨f, a, hf, (Except.ok.inj h).symm, (readField_eq_ok ha).imp_right fun ha => ⟨_, ha⟩⟩
  all_goals cases h

theorem optional_eq_ok {default : α}
    (h : (r.optional name decode default).read before entries = .ok b) :
    ∃ f a, r.read before entries = .ok f ∧ b = f a ∧ ((∃ d, decode d = .ok a) ∨ a = default) := by
  obtain ⟨f, a, hf, hb, ha⟩ := addField_eq_ok h
  exact ⟨f, a, hf, hb, ha.imp_right fun ⟨_, ha⟩ => (Except.ok.inj ha).symm⟩

theorem required_eq_ok (h : (r.required name decode).read before entries = .ok b) :
    ∃ f a, r.read before entries = .ok f ∧ b = f a ∧ ∃ d, decode d = .ok a := by
  obtain ⟨f, a, hf, hb, ha | ⟨_, ha⟩⟩ := addField_eq_ok h
  · exact ⟨f, a, hf, hb, ha⟩
  · split at ha <;> cases ha

theorem decode_eq_ok [Document δ] {r : Record δ α} {strict : Bool} {doc : δ} {a : α}
    (h : r.decode strict doc = .ok a) : ∃ entries, r.read 0 entries = .ok a := by
  unfold Record.decode at h
  obtain ⟨entries, -, h⟩ := Except.bind_eq_ok.mp h
  split at h
  · split at h
    · rename_i hread _
      obtain rfl := Except.ok.inj h
      exact ⟨_, hread⟩
    all_goals cases h
  · obtain ⟨a', hread, h⟩ := Except.bind_eq_ok.mp h
    split at h
    · obtain rfl := Except.ok.inj h
      exact ⟨_, Except.mapError_eq_ok.mp hread⟩
    · cases h

end Record

section Documents

variable {δ : Type} [Document δ]
  (hjson : ∀ (doc : δ) {j : Json}, Document.json doc = .ok j → j.allFinite = true)

include hjson

theorem StepSpec.decode_finite {doc : δ} {s : StepSpec} (h : StepSpec.decode doc = .ok s) :
    s.config.allFinite = true := by
  obtain ⟨entries, hall⟩ := Record.decode_eq_ok h
  -- the fields, the last one first
  obtain ⟨_, policy, hfive, rfl, -⟩ := Record.optional_eq_ok hall
  obtain ⟨_, distribute, hfour, rfl, -⟩ := Record.optional_eq_ok hfive
  obtain ⟨_, config, hthree, rfl, hconfig⟩ := Record.optional_eq_ok hfour
  obtain ⟨_, copies, htwo, rfl, -⟩ := Record.optional_eq_ok hthree
  obtain ⟨_, type, hone, rfl, -⟩ := Record.required_eq_ok htwo
  obtain ⟨_, name, hnone, rfl, -⟩ := Record.required_eq_ok hone
  obtain rfl := Except.ok.inj hnone
  obtain ⟨d, hd⟩ | rfl := hconfig
  · exact hjson d hd
  · rfl

theorem GraphFile.decode_finite {doc : δ} {file : GraphFile}
    (h : GraphFile.record.decode true doc = .ok file) : file.graph.allFinite = true := by
  obtain ⟨entries, hall⟩ := Record.decode_eq_ok h
  obtain ⟨_, hops, hthree, rfl, -⟩ := Record.optional_eq_ok hall
  obtain ⟨_, steps, htwo, rfl, _, hsteps⟩ := Record.required_eq_ok hthree
  obtain ⟨_, config, hone, rfl, -⟩ := Record.optional_eq_ok htwo
  obtain ⟨_, name, hnone, rfl, -⟩ := Record.optional_eq_ok hone
  obtain rfl := Except.ok.inj hnone
  obtain ⟨items, -, hitems⟩ := Except.bind_eq_ok.mp hsteps
  refine List.all_eq_true.mpr fun s hs => ?_
  obtain ⟨_, -, hs⟩ := Except.exists_of_mem_mapM hitems hs
  exact StepSpec.decode_finite hjson hs

end Documents

theorem GraphFile.read_finite {text : String} {file : GraphFile}
    (h : GraphFile.read text = .ok file) : file.graph.allFinite = true := by
  unfold GraphFile.read at h
  split at h
  · cases h
  · split at h
    · cases h
    · rename_i hfile
      split at h
      · cases h
      · obtain rfl := Except.ok.inj h
        exact GraphFile.decode_finite (fun _ _ hj => Yaml.Part.nodeJson_finite hj) hfile

/-- Files whose graphs have the same bytes under their digests run the same. -/
theorem GraphFile.runnable_of_hashed {text text' : String} {file file' : GraphFile}
    (h : GraphFile.read text = .ok file) (h' : GraphFile.read text' = .ok file')
    (hsame : file.graph.hashed = file'.graph.hashed) : file.graph.runnable = file'.graph.runnable :=
  Graph.runnable_of_hashed (GraphFile.read_finite h) (GraphFile.read_finite h') hsame

end Sluice
