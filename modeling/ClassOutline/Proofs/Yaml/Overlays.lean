import ClassOutline.Yaml.Decode
import Mathlib.Data.Option.Basic

/-!
# Documents read onto a record

A document is read onto a record that is there already, and what the document says nothing about stays
as it was. To separate the two, the same document is read onto a record of what is said. One shape
*follows* another through a map of records if each of its fields does with the image of a record what
the field of the other does with the record (`Shape.Follows`). Then a whole document does so as
well, with its aliases, its merged mappings and everything that does not fit
(`Document.read_follows`).
-/

namespace ClassOutline.Yaml

variable {α β γ : Type}

/-- A shape whose fields read onto the image of a record what the fields of another read onto the
record. -/
structure Shape.Follows (shape : Shape α) (other : Shape β) (f : β → α) : Prop where
  name_eq : shape.name = other.name
  fields : ∀ name, Option.Rel (fun read read' => ∀ n b, read n (f b) = f <$> read' n b)
    (shape.field? name) (other.field? name)

/-- A draft with another record. -/
def Draft.mapRecord (f : β → α) (d : Draft β) : Draft α := { record := f d.record, taken := d.taken }

@[simp] theorem Draft.mapRecord_record (f : β → α) (d : Draft β) :
    (d.mapRecord f).record = f d.record := rfl

@[simp] theorem Draft.mapRecord_taken (f : β → α) (d : Draft β) :
    (d.mapRecord f).taken = d.taken := rfl

variable {shape : Shape α} {other : Shape β} {f : β → α}

theorem Reader.map_apply (g : γ → α) (x : Reader γ) (place : Place) (r : Reading) :
    (g <$> x) place r = (x place r).map fun out => (g out.1, out.2) := by
  change ((x place r).bind fun out => some (g out.1, out.2)) = _
  rw [Option.map_eq_bind]
  rfl

theorem Node.map_visited (g : γ → α) (n : Node) (k : Node → Reader γ) :
    g <$> n.visited k = n.visited fun m => g <$> k m := by
  unfold Node.visited
  rw [map_bind]
  refine bind_congr fun _ => ?_
  split
  · rw [map_bind]
    refine bind_congr fun place => ?_
    rw [map_bind]
    refine bind_congr fun _ => ?_
    split
    · rfl
    · exact congrArg (withReader _) (map_bind g visit fun _ => k _)
  · rfl

theorem Draft.entries_follows (h : shape.Follows other f) (entries : List (Node × Node))
    (done : List Bytes) (d : Draft β) :
    (d.mapRecord f).entries shape done entries =
      Draft.mapRecord f <$> d.entries other done entries := by
  induction entries generalizing done d with
  | nil => simp [Draft.entries]
  | cons entry entries ih =>
    obtain ⟨key, value⟩ := entry
    rw [Draft.entries, Draft.entries]
    by_cases hmerge : key.isMergeKey = true
    · rw [if_pos hmerge, if_pos hmerge, ih]
    · rw [if_neg hmerge, if_neg hmerge, map_bind]
      refine bind_congr fun name => ?_
      cases name with
      | none => exact ih done d
      | some name =>
        dsimp only
        rw [Draft.mapRecord_taken]
        by_cases hname : d.taken.any (fun names => names.contains name) = true
        · rw [if_pos hname, if_pos hname, ih]
        · rw [if_neg hname, if_neg hname]
          -- a name is a field of both shapes or of none
          have hfield := h.fields name
          generalize shape.field? name = read at hfield
          generalize other.field? name = read' at hfield
          cases hfield with
          | none => exact ih done { d with taken := d.taken.map fun names => name :: names }
          | some hread =>
            dsimp only
            split
            · rw [h.name_eq, map_bind]
              exact bind_congr fun _ => ih done { d with taken := d.taken.map (name :: ·) }
            · rw [Draft.mapRecord_record, hread, bind_map_left, map_bind]
              exact bind_congr fun record =>
                ih (name :: done) { record, taken := d.taken.map (name :: ·) }

/-! ## Merged mappings -/

theorem Draft.foldlM_follows {step : Draft α → Node → Reader (Draft α)}
    {step' : Draft β → Node → Reader (Draft β)}
    (h : ∀ d n, step (d.mapRecord f) n = Draft.mapRecord f <$> step' d n) (nodes : List Node)
    (d : Draft β) :
    nodes.foldlM step (d.mapRecord f) = Draft.mapRecord f <$> nodes.foldlM step' d := by
  induction nodes generalizing d with
  | nil => simp
  | cons n nodes ih =>
    rw [List.foldlM_cons, List.foldlM_cons, h, bind_map_left, map_bind]
    exact bind_congr fun d => ih d

theorem Draft.onto_follows (h : shape.Follows other f) (fuel : Nat) (n : Node) (d : Draft β) :
    Draft.onto shape fuel n (d.mapRecord f) = Draft.mapRecord f <$> Draft.onto other fuel n d := by
  induction fuel generalizing n d with
  | zero => rfl
  | succ fuel ih =>
    rw [Draft.onto, Draft.onto, Node.map_visited]
    refine congrArg (Node.visited _) (funext fun n => ?_)
    split
    next entries _ =>
      dsimp only
      by_cases hrepeated : (!(Node.repeatedKeys entries).isEmpty) = true
      · rw [if_pos hrepeated, if_pos hrepeated, map_bind]
        rfl
      · rw [if_neg hrepeated, if_neg hrepeated, Draft.entries_follows h, bind_map_left, map_bind]
        refine bind_congr fun e => ?_
        split
        · rfl
        · rw [map_bind]
          refine bind_congr fun place => ?_
          split
          · rfl
          next sources _ =>
            -- each source is read with one merge less, so the induction is on the fuel
            have hmerged (taken : List Bytes) :
                sources.foldlM (fun d n => Draft.onto shape fuel n d)
                    ({ record := f e.record, taken := some taken } : Draft α) =
                  Draft.mapRecord f <$> sources.foldlM (fun d n => Draft.onto other fuel n d)
                    ({ record := e.record, taken := some taken } : Draft β) :=
              Draft.foldlM_follows (fun d n => ih n d) sources
                { record := e.record, taken := some taken }
            simp only [Draft.mapRecord_taken, Draft.mapRecord_record, hmerged]
            cases e.taken with
            | none =>
              rw [map_bind]
              refine bind_congr fun taken => ?_
              rw [bind_map_left, map_bind]
              rfl
            | some names =>
              dsimp only
              rw [pure_bind, pure_bind, bind_map_left, map_bind]
              rfl
    next tag text _ =>
      split
      · rfl
      · rfl
      · rw [h.name_eq, map_bind]
        rfl
    · rw [h.name_eq, map_bind]
      rfl

/-! ## Whole documents -/

theorem Node.record_follows (h : shape.Follows other f) (n : Node) (b : β) :
    n.record shape (f b) = f <$> n.record other b := by
  rw [Node.record, Node.record, map_bind]
  refine bind_congr fun place => ?_
  have hstart : ({ record := f b } : Draft α) = Draft.mapRecord f { record := b } := rfl
  dsimp only
  rw [hstart, Draft.onto_follows h, map_bind, bind_map_left]
  rfl

/-- A document read onto the image of a record gives the image of what it gives when it is read onto
the record, and the same mismatches. -/
theorem Document.read_follows (h : shape.Follows other f) (d : Document) (b : β) :
    d.read shape (f b) = (d.read other b).map fun r => (f r.1, r.2) := by
  have hreading : (do visit; d.root.record shape (f b)) =
      f <$> (do visit; d.root.record other b : Reader β) := by
    rw [Node.record_follows h, map_bind]
  rw [Document.read, hreading, Reader.map_apply, Option.map_map, Document.read, Option.map_map]
  rfl

end ClassOutline.Yaml
