import ObjectModel.Proofs.Store.Hash
import ObjectModel.Proofs.Store.Keyed

/-!
# Equality of keys

Loose equality is symmetric and transitive among values that have a hash, and more depth never makes
equal keys different. All three are proved together, by induction on the depth: two sets of equal
size match each other as soon as one is matched into the other, because no two elements of a set are
equal.
-/

namespace ObjectModel

theorem pointwise_iff {α : Type} {related : α → α → Bool} {left right : List α} :
    pointwise related left right ↔ List.Forall₂ (fun a b => related a b) left right := by
  induction left generalizing right with
  | nil => cases right <;> simp [pointwise]
  | cons a left induction => cases right <;> simp [pointwise, induction]

theorem exists_right_of_mem {α β : Type} {related : α → β → Prop} {left : List α} {right : List β}
    (pairs : List.Forall₂ related left right) {a : α} (member : a ∈ left) :
    ∃ b ∈ right, related a b := by
  induction pairs with
  | nil => contradiction
  | cons pair pairs induction =>
      rcases List.mem_cons.mp member with rfl | member
      · exact ⟨_, List.mem_cons_self, pair⟩
      · obtain ⟨b, member_right, pair_right⟩ := induction member
        exact ⟨b, List.mem_cons_of_mem _ member_right, pair_right⟩

theorem forall₂_imp_of_mem {α β : Type} {related weaker : α → β → Prop} {left : List α}
    {right : List β} (pairs : List.Forall₂ related left right)
    (weaken : ∀ a ∈ left, ∀ b ∈ right, related a b → weaker a b) :
    List.Forall₂ weaker left right := by
  induction pairs with
  | nil => exact .nil
  | cons pair pairs induction =>
      refine .cons (weaken _ List.mem_cons_self _ List.mem_cons_self pair) (induction ?_)
      intro a member b member_right
      exact weaken a (List.mem_cons_of_mem _ member) b (List.mem_cons_of_mem _ member_right)

theorem forall₂_trans_of_mem {α β γ : Type} {related : α → β → Prop} {next : β → γ → Prop}
    {overall : α → γ → Prop} {left : List α} {middle : List β} {right : List γ}
    (first : List.Forall₂ related left middle) (second : List.Forall₂ next middle right)
    (trans : ∀ a ∈ left, ∀ b ∈ middle, ∀ c ∈ right, related a b → next b c → overall a c) :
    List.Forall₂ overall left right := by
  induction first generalizing right with
  | nil =>
      cases second
      exact .nil
  | cons pair pairs induction =>
      cases second with
      | cons other others =>
          refine .cons ?_ (induction others ?_)
          · exact trans _ List.mem_cons_self _ List.mem_cons_self _ List.mem_cons_self pair other
          · intro a member b member_middle c member_right
            exact trans a (List.mem_cons_of_mem _ member) b (List.mem_cons_of_mem _ member_middle) c
              (List.mem_cons_of_mem _ member_right)

/-- If each item has a partner and no two items can have the same one, then the items can be paired
off with partners of their own. -/
theorem exists_paired_forall₂ {α β : Type} {related : α → β → Prop} {items : List α}
    {partners : List β} (total : ∀ item ∈ items, ∃ partner ∈ partners, related item partner)
    (apart : items.Pairwise fun item later =>
      ∀ partner ∈ partners, related item partner → ¬ related later partner) :
    ∃ paired left, (paired ++ left).Perm partners ∧ List.Forall₂ related items paired := by
  induction items generalizing partners with
  | nil => exact ⟨[], partners, .refl partners, .nil⟩
  | cons item items induction =>
      obtain ⟨partner, member, partnered⟩ := total item List.mem_cons_self
      obtain ⟨front, back, rfl⟩ := List.append_of_mem member
      rw [List.pairwise_cons] at apart
      have rest_total : ∀ later ∈ items, ∃ other ∈ front ++ back, related later other := by
        intro later later_member
        obtain ⟨other, other_member, other_partnered⟩ :=
          total later (List.mem_cons_of_mem item later_member)
        have other_ne : other ≠ partner := by
          rintro rfl
          exact apart.1 later later_member other member partnered other_partnered
        refine ⟨other, ?_, other_partnered⟩
        simpa [other_ne] using other_member
      have rest_apart : items.Pairwise fun item later =>
          ∀ partner ∈ front ++ back, related item partner → ¬ related later partner := by
        refine apart.2.imp fun separate other other_member => separate other ?_
        rw [List.mem_append] at other_member
        rw [List.mem_append, List.mem_cons]
        tauto
      obtain ⟨paired, left, perm, pairs⟩ := induction rest_total rest_apart
      exact ⟨partner :: paired, left, (perm.cons partner).trans List.perm_middle.symm,
        .cons partnered pairs⟩

/-- Whether a value without items is equal to itself alone. -/
def Value.isAtom : Value → Bool
  | none | str _ | slice _ | builtin _ | listIterator _ | setIterator _ | dictKeyIterator _
  | seqIterator _ | map _ => true
  | _ => false

namespace Store

/-- A value that can be a key. -/
def IsKey (store : Store) (value : Value) : Prop :=
  ∃ hash, store.hash value = .ok hash

/-- The ways in which two keys can be equal, given the equality of the values inside. -/
inductive Alike (store : Store) (equal : Value → Value → Bool) : Value → Value → Prop
  | number {left right : Value} {m n : Number} (left_number : left.number? = some m)
      (right_number : right.number? = some n) (same : m.equals n) : Alike store equal left right
  | bytes (bytes : List UInt8) : Alike store equal (.bytes bytes) (.bytes bytes)
  | tuple {left right : Ref}
      (items : List.Forall₂ (fun a b => equal a b) (store.tuple left) (store.tuple right)) :
      Alike store equal (.tuple left) (.tuple right)
  | frozenset {left right : Ref} (elements : store.sameElements equal left right) :
      Alike store equal (.frozenset left) (.frozenset right)
  | atom {value : Value} (atom : value.isAtom) : Alike store equal value value

variable {store : Store} {equal : Equality → Value → Value → Bool} {left right : Value}

theorem bytes_of_isKey (key : store.IsKey left) {bytes : List UInt8}
    (holds : store.bytes? left = some bytes) : left = .bytes bytes := by
  obtain ⟨hash, hashes⟩ := key
  cases left with
  | bytes other => exact congrArg Value.bytes (Option.some.inj holds)
  | bytearray ref => contradiction
  | _ => contradiction

theorem looseStep_of_alike (alike : store.Alike (equal .loose) left right) :
    store.looseStep equal left right := by
  cases alike with
  | number left_number right_number same =>
      unfold looseStep
      rw [left_number, right_number]
      exact same
  | bytes bytes => exact beq_self_eq_true bytes
  | tuple items => exact pointwise_iff.mpr items
  | frozenset elements => exact elements
  | atom atom =>
      have step : store.looseStep equal left left = (left == left) := by
        cases left <;> first | rfl | contradiction
      rw [step]
      exact beq_self_eq_true left

theorem alike_of_looseStep (left_key : store.IsKey left) (right_key : store.IsKey right)
    (holds : store.looseStep equal left right) : store.Alike (equal .loose) left right := by
  unfold looseStep at holds
  split at holds
  · exact .number ‹_› ‹_› holds
  · rename_i not_numbers
    split at holds
    · rename_i a b left_bytes right_bytes
      obtain rfl := bytes_of_isKey left_key left_bytes
      obtain rfl := bytes_of_isKey right_key right_bytes
      obtain rfl : a = b := by simpa using holds
      exact .bytes a
    · rename_i not_bytes
      split at holds
      · exact .tuple (pointwise_iff.mp holds)
      · rename_i not_tuples
        obtain ⟨hash, hashes⟩ := left_key
        obtain ⟨other_hash, other_hashes⟩ := right_key
        unfold strictStep at holds
        split at holds
        · exact (not_numbers _ _ rfl rfl).elim
        · exact (not_numbers _ _ rfl rfl).elim
        · contradiction
        · exact (not_tuples _ _ rfl rfl).elim
        · contradiction
        · contradiction
        · contradiction
        · contradiction
        · exact .frozenset holds
        · contradiction
        · contradiction
        · rename_i not_frozensets _ _
          obtain rfl := eq_of_beq holds
          cases left with
          | bool b => exact (not_numbers _ _ rfl rfl).elim
          | int n => exact (not_numbers _ _ rfl rfl).elim
          | float x => exact (not_numbers _ _ rfl rfl).elim
          | complex re im => exact (not_numbers _ _ rfl rfl).elim
          | bytes bytes => exact .bytes bytes
          | tuple ref => exact (not_tuples _ _ rfl rfl).elim
          | frozenset ref => exact (not_frozensets _ _ rfl rfl).elim
          | bytearray ref => contradiction
          | list ref => contradiction
          | set ref => contradiction
          | dict ref => contradiction
          | hostObject ref => contradiction
          | _ => exact .atom rfl

theorem looseStep_iff_alike (left_key : store.IsKey left) (right_key : store.IsKey right) :
    store.looseStep equal left right ↔ store.Alike (equal .loose) left right :=
  ⟨alike_of_looseStep left_key right_key, looseStep_of_alike⟩

/-! ## Items and elements -/

theorem isKey_of_mem_tuple {ref : Ref} (key : store.IsKey (.tuple ref)) :
    ∀ item ∈ store.tuple ref, store.IsKey item := by
  obtain ⟨hash, hashes⟩ := key
  obtain ⟨words, items, -⟩ := hash_tuple hashes
  intro item member
  obtain ⟨word, -, item_hashes⟩ := exists_right_of_mem items member
  exact ⟨word, item_hashes⟩

theorem Keyed.isKey {table : Table Value Value} (keyed : store.Keyed table)
    {entry : Entry Value Value} (member : entry ∈ table.entries) : store.IsKey entry.key :=
  ⟨entry.hash, keyed.hash_eq entry member⟩

/-- One entry is what a search for the key of another finds. -/
def Finds (equal : Value → Value → Bool) (entry found : Entry Value Value) : Prop :=
  found.hash = entry.hash ∧ equal found.key entry.key

theorem isMatch_iff_finds {equal : Value → Value → Bool} {entry found : Entry Value Value} :
    found.isMatch entry.hash (equal · entry.key) ↔ Finds equal entry found := by
  rw [Entry.isMatch, Bool.and_eq_true, beq_iff_eq]
  rfl

/-- Of several entries that a search could find it finds the first. -/
theorem entryFor?_eq (sound : store.Sound) {left : Ref} {entry : Entry Value Value}
    (member : entry ∈ (store.table left).entries) (equal : Value → Value → Bool) (right : Ref) :
    store.entryFor? equal (store.table right) entry.key =
      .ok ((store.table right).entries.find? (Entry.isMatch entry.hash (equal · entry.key))) := by
  have hashes := (sound.keyed left).hash_eq entry member
  have indexed := (sound.keyed right).indexed
  rw [entryFor?, hashes, ← indexed.get?_eq]
  rfl

/-- A set has the same elements as another one if it is as large and each of its elements is found
in the other. -/
theorem sameElements_iff (sound : store.Sound) {equal : Value → Value → Bool} {left right : Ref} :
    store.sameElements equal left right ↔ left = right ∨
      (store.table left).entries.length = (store.table right).entries.length ∧
        ∀ entry ∈ (store.table left).entries, ∃ found ∈ (store.table right).entries,
          Finds equal entry found := by
  rw [sameElements, Bool.or_eq_true, Bool.and_eq_true, beq_iff_eq, beq_iff_eq,
    (sound.keyed left).indexed.size_eq, (sound.keyed right).indexed.size_eq]
  simp only [elements, Table.keys, List.all_map, List.all_eq_true, Function.comp_apply]
  refine or_congr_right (and_congr_right' (forall₂_congr fun entry member => ?_))
  rw [entryFor?_eq sound member]
  cases search : (store.table right).entries.find?
      (Entry.isMatch entry.hash (equal · entry.key)) with
  | none =>
      rw [List.find?_eq_none] at search
      simpa [isMatch_iff_finds] using search
  | some found =>
      have member_right := List.mem_of_find?_eq_some search
      have finds := isMatch_iff_finds.mp (List.find?_some search)
      exact iff_of_true rfl ⟨found, member_right, finds⟩

/-! ## Symmetry and transitivity -/

theorem Alike.imp (sound : store.Sound) {equal weaker : Value → Value → Bool}
    (left_key : store.IsKey left) (right_key : store.IsKey right)
    (alike : store.Alike equal left right)
    (weaken : ∀ a b, store.IsKey a → store.IsKey b → equal a b → weaker a b) :
    store.Alike weaker left right := by
  cases alike with
  | number left_number right_number same => exact .number left_number right_number same
  | bytes bytes => exact .bytes bytes
  | tuple items =>
      refine .tuple (forall₂_imp_of_mem items ?_)
      intro a member b member_right
      have a_key := isKey_of_mem_tuple left_key a member
      have b_key := isKey_of_mem_tuple right_key b member_right
      exact weaken a b a_key b_key
  | @frozenset a b elements =>
      refine .frozenset ((sameElements_iff sound).mpr ?_)
      rcases (sameElements_iff sound).mp elements with rfl | ⟨same_length, total⟩
      · exact .inl rfl
      · refine .inr ⟨same_length, fun entry member => ?_⟩
        obtain ⟨found, member_right, same_hash, equal_keys⟩ := total entry member
        have entry_key := (sound.keyed a).isKey member
        have found_key := (sound.keyed b).isKey member_right
        exact ⟨found, member_right, same_hash, weaken _ _ found_key entry_key equal_keys⟩
  | atom atom => exact .atom atom

/-- What an equality of keys has to satisfy for the equality of one level more to be symmetric and
transitive. -/
structure KeyRelation (store : Store) (equal : Value → Value → Bool) : Prop where
  symm : ∀ {a b}, store.IsKey a → store.IsKey b → equal a b → equal b a
  trans : ∀ {a b c}, store.IsKey a → store.IsKey b → store.IsKey c → equal a b → equal b c →
    equal a c
  equals : ∀ {a b}, store.IsKey a → store.IsKey b → equal a b → store.equals a b

/-- The elements of a set can be paired off with elements of a set that has them all. -/
theorem exists_paired_of_finds (sound : store.Sound) {equal : Value → Value → Bool}
    (relation : store.KeyRelation equal) {left right : Ref}
    (total : ∀ entry ∈ (store.table left).entries, ∃ found ∈ (store.table right).entries,
      Finds equal entry found) :
    ∃ paired rest, (paired ++ rest).Perm (store.table right).entries ∧
      List.Forall₂ (Finds equal) (store.table left).entries paired := by
  have left_keyed := sound.keyed left
  have right_keyed := sound.keyed right
  apply exists_paired_forall₂ total
  apply left_keyed.distinct.imp_of_mem
  intro entry later member later_member different found found_member finds finds_later
  have entry_key := left_keyed.isKey member
  have later_key := left_keyed.isKey later_member
  have found_key := right_keyed.isKey found_member
  have same_hash : entry.hash = later.hash := finds.1.symm.trans finds_later.1
  have equal_found : equal entry.key found.key := relation.symm found_key entry_key finds.2
  have equal_keys : equal entry.key later.key :=
    relation.trans entry_key found_key later_key equal_found finds_later.2
  have equals := relation.equals entry_key later_key equal_keys
  rw [different same_hash] at equals
  contradiction

/-- The elements of a set can be paired off with those of a set that has the same elements. -/
theorem exists_perm_of_finds (sound : store.Sound) {equal : Value → Value → Bool}
    (relation : store.KeyRelation equal) {left right : Ref}
    (same_length : (store.table left).entries.length = (store.table right).entries.length)
    (total : ∀ entry ∈ (store.table left).entries, ∃ found ∈ (store.table right).entries,
      Finds equal entry found) :
    ∃ paired, paired.Perm (store.table right).entries ∧
      List.Forall₂ (Finds equal) (store.table left).entries paired := by
  obtain ⟨paired, rest, perm, pairs⟩ := exists_paired_of_finds sound relation total
  have all_lengths := perm.length_eq
  rw [List.length_append, ← pairs.length_eq, same_length, Nat.add_eq_left,
    List.length_eq_zero_iff] at all_lengths
  rw [all_lengths, List.append_nil] at perm
  exact ⟨paired, perm, pairs⟩

/-- A set is no larger than a set that has all its elements. -/
theorem length_le_of_finds (sound : store.Sound) {equal : Value → Value → Bool}
    (relation : store.KeyRelation equal) {left right : Ref}
    (total : ∀ entry ∈ (store.table left).entries, ∃ found ∈ (store.table right).entries,
      Finds equal entry found) :
    (store.table left).entries.length ≤ (store.table right).entries.length := by
  obtain ⟨paired, rest, perm, pairs⟩ := exists_paired_of_finds sound relation total
  rw [pairs.length_eq, ← perm.length_eq, List.length_append]
  exact Nat.le_add_right _ _

theorem Finds.symm (sound : store.Sound) {equal : Value → Value → Bool}
    (relation : store.KeyRelation equal) {left right : Ref} {entry found : Entry Value Value}
    (member : entry ∈ (store.table left).entries)
    (found_member : found ∈ (store.table right).entries) (finds : Finds equal entry found) :
    Finds equal found entry := by
  have entry_key := (sound.keyed left).isKey member
  have found_key := (sound.keyed right).isKey found_member
  exact ⟨finds.1.symm, relation.symm found_key entry_key finds.2⟩

theorem Finds.trans (sound : store.Sound) {equal : Value → Value → Bool}
    (relation : store.KeyRelation equal) {left middle right : Ref}
    {entry found last : Entry Value Value} (member : entry ∈ (store.table left).entries)
    (member_middle : found ∈ (store.table middle).entries)
    (member_right : last ∈ (store.table right).entries) (first : Finds equal entry found)
    (second : Finds equal found last) : Finds equal entry last := by
  have entry_key := (sound.keyed left).isKey member
  have found_key := (sound.keyed middle).isKey member_middle
  have last_key := (sound.keyed right).isKey member_right
  exact ⟨second.1.trans first.1, relation.trans last_key found_key entry_key second.2 first.2⟩

theorem sameElements_symm (sound : store.Sound) {equal : Value → Value → Bool}
    (relation : store.KeyRelation equal) {left right : Ref}
    (elements : store.sameElements equal left right) : store.sameElements equal right left := by
  rw [sameElements_iff sound] at elements ⊢
  rcases elements with rfl | ⟨same_length, total⟩
  · exact .inl rfl
  · refine .inr ⟨same_length.symm, fun entry member => ?_⟩
    obtain ⟨paired, perm, pairs⟩ := exists_perm_of_finds sound relation same_length total
    have member_paired : entry ∈ paired := perm.mem_iff.mpr member
    obtain ⟨found, member_left, finds⟩ := exists_right_of_mem pairs.flip member_paired
    exact ⟨found, member_left, Finds.symm sound relation member_left member finds⟩

theorem sameElements_trans (sound : store.Sound) {equal : Value → Value → Bool}
    (relation : store.KeyRelation equal) {left middle right : Ref}
    (first : store.sameElements equal left middle)
    (second : store.sameElements equal middle right) : store.sameElements equal left right := by
  rw [sameElements_iff sound] at first second ⊢
  rcases first with rfl | ⟨same_length, total⟩
  · exact second
  · rcases second with rfl | ⟨same_length_right, total_right⟩
    · exact .inr ⟨same_length, total⟩
    · refine .inr ⟨same_length.trans same_length_right, fun entry member => ?_⟩
      obtain ⟨found, member_middle, finds⟩ := total entry member
      obtain ⟨last, member_right, finds_last⟩ := total_right found member_middle
      exact ⟨last, member_right,
        finds.trans sound relation member member_middle member_right finds_last⟩

theorem Alike.symm (sound : store.Sound) {equal : Value → Value → Bool}
    (relation : store.KeyRelation equal) (left_key : store.IsKey left)
    (right_key : store.IsKey right) (alike : store.Alike equal left right) :
    store.Alike equal right left := by
  cases alike with
  | number left_number right_number same =>
      exact .number right_number left_number (by rwa [Number.equals_comm])
  | bytes bytes => exact .bytes bytes
  | tuple items =>
      refine .tuple (forall₂_imp_of_mem items.flip ?_)
      intro b member_right a member
      have a_key := isKey_of_mem_tuple left_key a member
      have b_key := isKey_of_mem_tuple right_key b member_right
      exact relation.symm a_key b_key
  | frozenset elements => exact .frozenset (sameElements_symm sound relation elements)
  | atom atom => exact .atom atom

theorem Alike.trans (sound : store.Sound) {equal : Value → Value → Bool}
    (relation : store.KeyRelation equal) {middle : Value} (left_key : store.IsKey left)
    (middle_key : store.IsKey middle) (right_key : store.IsKey right)
    (first : store.Alike equal left middle) (second : store.Alike equal middle right) :
    store.Alike equal left right := by
  cases first with
  | number left_number middle_number same =>
      cases second with
      | number middle_again right_number same_right =>
          obtain rfl := Option.some.inj (middle_number.symm.trans middle_again)
          exact .number left_number right_number (Number.equals_trans same same_right)
      | bytes bytes => contradiction
      | tuple items => contradiction
      | frozenset elements => contradiction
      | atom atom => exact .number left_number middle_number same
  | bytes bytes => exact second
  | tuple items =>
      cases second with
      | number middle_number right_number same => contradiction
      | tuple items_right =>
          refine .tuple (forall₂_trans_of_mem items items_right ?_)
          intro a member b member_middle c member_right
          have a_key := isKey_of_mem_tuple left_key a member
          have b_key := isKey_of_mem_tuple middle_key b member_middle
          have c_key := isKey_of_mem_tuple right_key c member_right
          exact relation.trans a_key b_key c_key
      | atom atom => contradiction
  | frozenset elements =>
      cases second with
      | number middle_number right_number same => contradiction
      | frozenset elements_right =>
          exact .frozenset (sameElements_trans sound relation elements elements_right)
      | atom atom => contradiction
  | atom atom => exact second

/-! ## All depths -/

theorem equalWithin_succ_iff {depth : Nat} (left_key : store.IsKey left)
    (right_key : store.IsKey right) :
    store.equalWithin (depth + 1) .loose left right ↔
      store.Alike (store.equalWithin depth .loose) left right := by
  rw [equalWithin]
  exact looseStep_iff_alike left_key right_key

theorem equalWithin_succ (sound : store.Sound) {depth : Nat} (left_key : store.IsKey left)
    (right_key : store.IsKey right) (equal : store.equalWithin depth .loose left right) :
    store.equalWithin (depth + 1) .loose left right := by
  induction depth generalizing left right with
  | zero => contradiction
  | succ depth induction =>
      rw [equalWithin_succ_iff left_key right_key] at equal ⊢
      exact equal.imp sound left_key right_key fun a b => induction

/-- Keys that are equal within some depth are equal. -/
theorem equals_of_equalWithin (sound : store.Sound) {depth : Nat} (le : depth ≤ store.depth)
    (left_key : store.IsKey left) (right_key : store.IsKey right)
    (equal : store.equalWithin depth .loose left right) : store.equals left right := by
  obtain ⟨extra, depth_eq⟩ := Nat.exists_eq_add_of_le le
  rw [equals, depth_eq]
  clear depth_eq
  induction extra with
  | zero => exact equal
  | succ extra induction => exact equalWithin_succ sound left_key right_key induction

theorem keyRelation_equalWithin (sound : store.Sound) {depth : Nat} (le : depth ≤ store.depth) :
    store.KeyRelation (store.equalWithin depth .loose) := by
  induction depth with
  | zero =>
      exact
        { symm := fun _ _ equal => nomatch equal
          trans := fun _ _ _ equal => nomatch equal
          equals := fun _ _ equal => nomatch equal }
  | succ depth induction =>
      have relation := induction (Nat.le_of_succ_le le)
      refine
        { symm := fun left_key right_key equal => ?_
          trans := fun left_key middle_key right_key first second => ?_
          equals := equals_of_equalWithin sound le }
      · rw [equalWithin_succ_iff left_key right_key] at equal
        rw [equalWithin_succ_iff right_key left_key]
        exact equal.symm sound relation left_key right_key
      · rw [equalWithin_succ_iff left_key middle_key] at first
        rw [equalWithin_succ_iff middle_key right_key] at second
        rw [equalWithin_succ_iff left_key right_key]
        exact first.trans sound relation left_key middle_key right_key second

/-- Equality of keys is symmetric and transitive. -/
theorem keyRelation_equals (sound : store.Sound) : store.KeyRelation store.equals :=
  keyRelation_equalWithin sound (Nat.le_refl store.depth)

end Store
end ObjectModel
