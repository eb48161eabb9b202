import BrokerAdmin.Toml.Document
import BrokerAdmin.Toml.Tagged
import Mathlib.Data.List.Nodup

set_option autoImplicit false

/-!
Names in a document. No table of a document that can be read has a name twice, at whatever depth it
stands and whether it is written inline, under a header or by dotted keys: a name that is there
already is refused or goes on with the table that stands under it. A document without tags among
its names is not changed by reading the tags.
-/

namespace BrokerAdmin.Toml

/-- The names of each table, at any depth, are as the predicate says. -/
inductive Value.EachTable (p : List String → Prop) : Value → Prop
  | string (s : String) : EachTable p (.string s)
  | integer (n : Int) : EachTable p (.integer n)
  | float (x : Decimal.Binary64) : EachTable p (.float x)
  | boolean (b : Bool) : EachTable p (.boolean b)
  | moment (text : String) : EachTable p (.moment text)
  | array {items : List Value} : (∀ v ∈ items, EachTable p v) → EachTable p (.array items)
  | table {entries : List (String × Value)} : p (entries.map (·.1)) →
      (∀ e ∈ entries, EachTable p e.2) → EachTable p (.table entries)

abbrev Value.Distinct : Value → Prop := Value.EachTable List.Nodup

theorem Value.eachTable_table_iff {p : List String → Prop} {entries : List (String × Value)} :
    (Value.table entries).EachTable p ↔
      p (entries.map (·.1)) ∧ ∀ e ∈ entries, e.2.EachTable p := by
  constructor
  · intro h
    cases h with
    | table names values => exact ⟨names, values⟩
  · rintro ⟨names, values⟩
    exact .table names values

theorem Value.EachTable.imp {p q : List String → Prop} (weaken : ∀ names, p names → q names)
    {v : Value} (h : v.EachTable p) : v.EachTable q := by
  induction h with
  | string s => exact .string s
  | integer n => exact .integer n
  | float x => exact .float x
  | boolean b => exact .boolean b
  | moment text => exact .moment text
  | array _ items => exact .array items
  | table names _ values => exact .table (weaken _ names) values

theorem Value.EachTable.of_lookup {p : List String → Prop} {entries : List (String × Value)}
    {name : String} {v : Value} (h : (Value.table entries).EachTable p)
    (found : lookup? entries name = some v) : v.EachTable p := by
  obtain ⟨e, here, rfl⟩ := Option.map_eq_some_iff.1 found
  exact (Value.eachTable_table_iff.1 h).2 e (List.mem_of_find?_eq_some here)

theorem entriesToValues_eq_map (es : Entries) :
    entriesToValues es = es.map fun e => (e.1, e.2.toValue) := by
  induction es with
  | nil => rfl
  | cons e es ih => rw [entriesToValues, ih, List.map_cons]

theorem elementsToValues_eq_map (elements : List Entries) (done : List Value) :
    elementsToValues elements done =
      (elements.map fun es => Value.table (entriesToValues es)).reverse ++ done := by
  induction elements generalizing done with
  | nil => rfl
  | cons es elements ih =>
    rw [elementsToValues, ih, List.map_cons, List.reverse_cons, List.append_assoc]
    rfl

def Node.Distinct (n : Node) : Prop := n.toValue.Distinct

namespace Entries

variable {es es' : Entries} {name : String} {n : Node}

def Distinct (es : Entries) : Prop := (es.map (·.1)).Nodup ∧ ∀ e ∈ es, e.2.Distinct

theorem distinct_iff : es.Distinct ↔ (Value.table (entriesToValues es)).Distinct := by
  rw [Value.Distinct, Value.eachTable_table_iff, entriesToValues_eq_map, List.map_map]
  simp only [Distinct, Node.Distinct, List.forall_mem_map]
  rfl

end Entries

theorem Node.distinct_value_iff {v : Value} : (Node.value v).Distinct ↔ v.Distinct := Iff.rfl

theorem Node.distinct_table_iff {o : Origin} {es : Entries} :
    (Node.table o es).Distinct ↔ es.Distinct := Entries.distinct_iff.symm

theorem Node.distinct_tables_iff {elements : List Entries} :
    (Node.tables elements).Distinct ↔ ∀ es ∈ elements, es.Distinct := by
  rw [Node.Distinct, Node.toValue, elementsToValues_eq_map, List.append_nil]
  constructor
  · intro h es hes
    cases h with
    | array items =>
      apply Entries.distinct_iff.2
      exact items _ (List.mem_reverse.2 (List.mem_map_of_mem hes))
  · intro h
    refine .array fun v hv => ?_
    obtain ⟨es, hes, rfl⟩ := List.mem_map.1 (List.mem_reverse.1 hv)
    exact Entries.distinct_iff.1 (h es hes)

namespace Entries

variable {es es' : Entries} {name : String} {n : Node}

theorem Distinct.nil : Distinct [] := ⟨.nil, by simp⟩

theorem Distinct.find? (h : es.Distinct) (found : find? es name = some n) : n.Distinct := by
  obtain ⟨e, here, rfl⟩ := Option.map_eq_some_iff.1 found
  exact h.2 e (List.mem_of_find?_eq_some here)

theorem notMem_names (unknown : find? es name = none) : name ∉ es.map (·.1) := by
  intro hmem
  obtain ⟨e, he, rfl⟩ := List.mem_map.1 hmem
  rw [Entries.find?, Option.map_eq_none_iff, List.find?_eq_none] at unknown
  exact unknown e he BEq.rfl

theorem Distinct.append (h : es.Distinct) (unknown : name ∉ es.map (·.1)) (hn : n.Distinct) :
    Distinct (es ++ [(name, n)]) := by
  refine ⟨?_, ?_⟩
  · rw [List.map_append, List.map_singleton, ← List.concat_eq_append]
    exact h.1.concat unknown
  · intro e he
    rcases List.mem_append.1 he with he | he
    · exact h.2 e he
    · cases List.mem_singleton.1 he
      exact hn

theorem Distinct.put (h : es.Distinct) (hn : n.Distinct) (name : String) :
    (put es name n).Distinct := by
  unfold Entries.put
  split
  · have names : ∀ e : String × Node, (if e.1 == name then (name, n) else e).1 = e.1 := by
      intro e
      split
      · rename_i same
        exact (eq_of_beq same).symm
      · rfl
    refine ⟨?_, ?_⟩
    · rw [List.map_map]
      simpa only [Function.comp_def, names] using h.1
    · intro e he
      obtain ⟨d, hd, rfl⟩ := List.mem_map.1 he
      split
      · exact hn
      · exact h.2 d hd
  · rename_i fresh
    apply h.append _ hn
    intro hmem
    obtain ⟨e, he, rfl⟩ := List.mem_map.1 hmem
    exact fresh (List.any_eq_true.2 ⟨e, he, BEq.rfl⟩)

theorem Distinct.put_table {inner : Entries} {next : Entries → Option Entries} {o : Origin}
    (h : es.Distinct) (kept : ∀ inner', next inner = some inner' → inner'.Distinct)
    (done : ((next inner).map fun inner => Entries.put es name (.table o inner)) = some es') :
    es'.Distinct := by
  obtain ⟨inner', changed, rfl⟩ := Option.map_eq_some_iff.1 done
  exact h.put (Node.distinct_table_iff.2 (kept inner' changed)) name

/-- The latest element of an array of tables is changed, those before it stay. -/
theorem Distinct.put_latest {latest : Entries} {earlier : List Entries}
    {next : Entries → Option Entries} (h : es.Distinct)
    (found : Entries.find? es name = some (.tables (latest :: earlier)))
    (kept : ∀ inner', latest.Distinct → next latest = some inner' → inner'.Distinct)
    (done : ((next latest).map fun inner => Entries.put es name (.tables (inner :: earlier))) =
      some es') : es'.Distinct := by
  obtain ⟨first, others⟩ := List.forall_mem_cons.1 (Node.distinct_tables_iff.1 (h.find? found))
  obtain ⟨inner', changed, rfl⟩ := Option.map_eq_some_iff.1 done
  exact h.put (Node.distinct_tables_iff.2
    (List.forall_mem_cons.2 ⟨kept inner' first changed, others⟩)) name

theorem Distinct.addValue {parents : List String} {v : Value} (h : es.Distinct)
    (hv : v.Distinct) (done : addValue parents name v es = some es') : es'.Distinct := by
  induction parents generalizing es es' with
  | nil =>
    unfold Entries.addValue at done
    split at done
    · cases done
    · cases done
      exact h.put (Node.distinct_value_iff.2 hv) name
  | cons p ps ih =>
    unfold Entries.addValue at done
    split at done
    · exact h.put_table (fun _ added => ih .nil added) done
    · rename_i found
      have inner := Node.distinct_table_iff.1 (h.find? found)
      exact h.put_table (fun _ added => ih inner added) done
    · rename_i found
      have inner := Node.distinct_table_iff.1 (h.find? found)
      split at done
      · cases done
      · exact h.put_table (fun _ added => ih inner added) done
    · rename_i found
      split at done
      · cases done
      · exact h.put_latest found (fun _ latest added => ih latest added) done
    · cases done

theorem Distinct.within {change : Entries → Option Entries} {path : List String}
    (h : es.Distinct) (kept : ∀ es es', es.Distinct → change es = some es' → es'.Distinct)
    (done : within change path es = some es') : es'.Distinct := by
  induction path generalizing es es' with
  | nil => exact kept es es' h done
  | cons p ps ih =>
    unfold Entries.within at done
    split at done
    · exact h.put_table (fun _ changed => ih .nil changed) done
    · rename_i found
      have inner := Node.distinct_table_iff.1 (h.find? found)
      exact h.put_table (fun _ changed => ih inner changed) done
    · rename_i found
      exact h.put_latest found (fun _ latest changed => ih latest changed) done
    · cases done

theorem Distinct.claimTable (h : es.Distinct) (done : claimTable name es = some es') :
    es'.Distinct := by
  unfold Entries.claimTable at done
  split at done
  · rename_i unknown
    cases done
    exact h.append (notMem_names unknown) (Node.distinct_table_iff.2 .nil)
  · rename_i found
    cases done
    have inner := Node.distinct_table_iff.1 (h.find? found)
    refine Distinct.append ⟨?_, ?_⟩ ?_ (Node.distinct_table_iff.2 inner)
    · exact h.1.sublist (List.filter_sublist.map _)
    · exact fun e he => h.2 e (List.mem_of_mem_filter he)
    · intro hmem
      obtain ⟨e, he, same⟩ := List.mem_map.1 hmem
      simpa [same] using (List.mem_filter.1 he).2
  · cases done

theorem Distinct.addElement (h : es.Distinct) (done : addElement name es = some es') :
    es'.Distinct := by
  unfold Entries.addElement at done
  split at done
  · cases done
    exact h.put (Node.distinct_tables_iff.2 (by simp [Distinct.nil])) name
  · rename_i found
    cases done
    have elements := Node.distinct_tables_iff.1 (h.find? found)
    exact h.put (Node.distinct_tables_iff.2 (List.forall_mem_cons.2 ⟨.nil, elements⟩)) name
  · cases done

end Entries

section Reading

variable {item : Reader Value} {cs rest : List Char}

theorem scalar?_distinct {v : Value} (read : scalar? cs = some (v, rest)) : v.Distinct := by
  unfold scalar? at read
  split at read
  · obtain ⟨_, _, same⟩ := Option.map_eq_some_iff.1 read
    cases same
    exact .string _
  · obtain ⟨_, _, same⟩ := Option.map_eq_some_iff.1 read
    cases same
    exact .string _
  · cases read
    exact .boolean _
  · cases read
    exact .boolean _
  · split at read
    · cases read
      exact .moment _
    · split at read
      · cases read
        exact .float _
      · obtain ⟨_, _, same⟩ := Option.map_eq_some_iff.1 read
        cases same
        exact .integer _

theorem forall_mem_of_items? {p : Value → Prop}
    (reads : ∀ cs v rest, item cs = some (v, rest) → p v) {fuel : Nat} {vs : List Value}
    (read : items? item fuel cs = some (vs, rest)) : ∀ v ∈ vs, p v := by
  induction fuel generalizing cs rest vs with
  | zero => cases read
  | succ fuel ih =>
    obtain ⟨cs, -, read⟩ := Option.bind_eq_some_iff.1 read
    split at read
    · cases read
      simp
    · obtain ⟨⟨v, cs⟩, first, read⟩ := Option.bind_eq_some_iff.1 read
      obtain ⟨cs, -, read⟩ := Option.bind_eq_some_iff.1 read
      split at read
      · cases read
        simpa using reads _ _ _ first
      · obtain ⟨⟨vs, cs⟩, others, read⟩ := Option.bind_eq_some_iff.1 read
        cases read
        exact List.forall_mem_cons.2 ⟨reads _ _ _ first, ih others⟩
      · cases read

theorem keyValue?_distinct (reads : ∀ cs v rest, item cs = some (v, rest) → v.Distinct)
    {key : List String × String} {v : Value} (read : keyValue? item cs = some ((key, v), rest)) :
    v.Distinct := by
  obtain ⟨⟨key', cs⟩, -, read⟩ := Option.bind_eq_some_iff.1 read
  obtain ⟨cs, -, read⟩ := Option.bind_eq_some_iff.1 read
  obtain ⟨⟨v', cs⟩, value, read⟩ := Option.bind_eq_some_iff.1 read
  cases read
  exact reads _ _ _ value

theorem fields?_distinct (reads : ∀ cs v rest, item cs = some (v, rest) → v.Distinct)
    {fuel : Nat} {es es' : Entries} (h : es.Distinct)
    (read : fields? item fuel es cs = some (es', rest)) : es'.Distinct := by
  induction fuel generalizing cs es with
  | zero => cases read
  | succ fuel ih =>
    obtain ⟨⟨⟨⟨parents, name⟩, v⟩, cs⟩, first, read⟩ := Option.bind_eq_some_iff.1 read
    obtain ⟨es₁, added, read⟩ := Option.bind_eq_some_iff.1 read
    have next := h.addValue (keyValue?_distinct reads first) added
    split at read
    · cases read
      exact next
    · exact ih next read
    · cases read

theorem value?_distinct {depth : Nat} {v : Value} (read : value? depth cs = some (v, rest)) :
    v.Distinct := by
  induction depth generalizing cs v rest with
  | zero =>
    unfold value? at read
    exact scalar?_distinct read
  | succ depth ih =>
    have reads : ∀ cs v rest, value? depth cs = some (v, rest) → v.Distinct := fun _ _ _ => ih
    unfold value? at read
    split at read
    · rename_i same
      cases same
      obtain ⟨⟨vs, cs⟩, items, same⟩ := Option.map_eq_some_iff.1 read
      cases same
      exact .array (forall_mem_of_items? reads items)
    · rename_i same
      cases same
      unfold inlineTable? at read
      split at read
      · cases read
        exact Entries.distinct_iff.1 .nil
      · obtain ⟨⟨es, cs⟩, fields, same⟩ := Option.map_eq_some_iff.1 read
        cases same
        exact Entries.distinct_iff.1 (fields?_distinct reads .nil fields)
    · exact scalar?_distinct read

end Reading

namespace Draft

variable {d d' : Draft} {cs rest : List Char}

/-- A line adds a value, opens a table or opens an element of an array of tables. -/
theorem line?_distinct (h : d.root.Distinct) (read : d.line? cs = some (d', rest)) :
    d'.root.Distinct := by
  unfold line? at read
  split at read
  · obtain ⟨⟨⟨parents, name⟩, cs⟩, -, read⟩ := Option.bind_eq_some_iff.1 read
    obtain ⟨cs, -, read⟩ := Option.bind_eq_some_iff.1 read
    obtain ⟨cs, -, read⟩ := Option.bind_eq_some_iff.1 read
    obtain ⟨d₁, opened, read⟩ := Option.bind_eq_some_iff.1 read
    cases read
    obtain ⟨root, added, rfl⟩ := Option.map_eq_some_iff.1 opened
    exact h.within (fun _ _ inner done => inner.addElement done) added
  · obtain ⟨⟨⟨parents, name⟩, cs⟩, -, read⟩ := Option.bind_eq_some_iff.1 read
    obtain ⟨cs, -, read⟩ := Option.bind_eq_some_iff.1 read
    obtain ⟨d₁, opened, read⟩ := Option.bind_eq_some_iff.1 read
    cases read
    obtain ⟨root, claimed, rfl⟩ := Option.map_eq_some_iff.1 opened
    exact h.within (fun _ _ inner done => inner.claimTable done) claimed
  · obtain ⟨⟨⟨⟨parents, name⟩, v⟩, cs⟩, pair, read⟩ := Option.bind_eq_some_iff.1 read
    obtain ⟨d₁, entered, read⟩ := Option.bind_eq_some_iff.1 read
    cases read
    have value := keyValue?_distinct (fun _ _ _ => value?_distinct) pair
    obtain ⟨root, added, rfl⟩ := Option.map_eq_some_iff.1 entered
    exact h.within (fun es es' inner done => inner.addValue value done) added

theorem lines?_distinct {fuel : Nat} (h : d.root.Distinct)
    (read : lines? fuel d cs = some d') : d'.root.Distinct := by
  induction fuel generalizing d cs with
  | zero => cases read
  | succ fuel ih =>
    obtain ⟨cs, -, read⟩ := Option.bind_eq_some_iff.1 read
    split at read
    · cases read
      exact h
    · obtain ⟨⟨d₁, cs⟩, line, read⟩ := Option.bind_eq_some_iff.1 read
      obtain ⟨cs, -, read⟩ := Option.bind_eq_some_iff.1 read
      exact ih (line?_distinct h line) read

end Draft

/-- No table of a document has a name twice. -/
theorem distinct_of_parse {text : String} {es : List (String × Value)}
    (read : parse text = some es) : (Value.table es).Distinct := by
  obtain ⟨d, lines, rfl⟩ := Option.map_eq_some_iff.1 read
  exact Entries.distinct_iff.1 (Draft.lines?_distinct .nil lines)

section Untagged

theorem untagItems?_eq_some {items : List Value} (same : ∀ v ∈ items, v.untag? = some v) :
    untagItems? items = some items := by
  induction items with
  | nil => rfl
  | cons v items ih =>
    obtain ⟨first, others⟩ := List.forall_mem_cons.1 same
    simp only [untagItems?, first, ih others, Option.bind_eq_bind, Option.bind_some]
    rfl

theorem untagEntries?_eq_some {entries : List (String × Value)}
    (same : ∀ e ∈ entries, e.2.untag? = some e.2) : untagEntries? entries = some entries := by
  induction entries with
  | nil => rfl
  | cons e entries ih =>
    obtain ⟨first, others⟩ := List.forall_mem_cons.1 same
    simp only [untagEntries?, first, ih others, Option.bind_eq_bind, Option.bind_some]
    rfl

theorem tagged?_eq_none {entries : List (String × Value)}
    (untagged : momentTag ∉ entries.map (·.1)) : tagged? entries = none := by
  cases entries with
  | nil => rfl
  | cons e entries =>
    have different : e.1 ≠ momentTag := fun tag => untagged (tag ▸ List.mem_cons_self)
    rw [tagged?, if_neg (by simpa using different)]

/-- A value without tags stands for itself. -/
theorem Value.untag?_eq_some {v : Value}
    (untagged : v.EachTable fun names => momentTag ∉ names) : v.untag? = some v := by
  induction untagged with
  | array _ items => rw [Value.untag?, untagItems?_eq_some items, Option.map_some]
  | table names _ values =>
    simp only [Value.untag?, tagged?_eq_none names, untagEntries?_eq_some values, Option.map_some]
  | _ => rfl

end Untagged

end BrokerAdmin.Toml
