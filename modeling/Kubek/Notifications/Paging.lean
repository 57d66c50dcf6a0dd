/-
  Kubek.Notifications.Paging

  The list of a user's notifications, page by page: the query of `NotificationsRepository`,
  the cursor (`notifications-cursor.ts`), and `NotificationsService.list`, which asks for one
  row more than it returns.

  A cursor names the last row of a page by its time and id. What comes behind it in the order
  of the query is what the next query selects, so the pages are consecutive parts of one list.

  Texts are ASCII: an id is a UUID. What `Number` makes of a text that is not made of digits
  is a parameter, as no cursor of the panel has one.
-/

import Kubek.Lib.Base64
import Kubek.Lib.JsNumber
import Kubek.Lib.JsText
import Kubek.Lib.Utf8
import Mathlib.Algebra.Order.Ring.Rat
import Mathlib.Data.List.Nodup
import Mathlib.Data.Nat.Cast.Order.Ring
import Mathlib.Data.String.Basic

namespace Kubek.Notifications

abbrev Text := List Char

/-! ## Rows -/

/-- A row; its category and severity go by the kind. -/
structure Notification where
  id : String
  userId : String
  kind : String
  params : String
  readAt : Option Nat
  createdAt : Nat
  deriving DecidableEq, Repr

def isUuidChar (c : Char) : Bool := "0123456789abcdef-".toList.contains c

/-- What `randomUUID` makes. -/
structure IsUuid (id : String) : Prop where
  length : id.toList.length = 36
  chars : ∀ c ∈ id.toList, isUuidChar c = true

/-- The last moment of a `Date`. -/
def MAX_DATE : Nat := 8640000000000000

/-- The table: the id is its primary key, and rows are written by `create` only. -/
structure Table where
  rows : List Notification
  ids : (rows.map Notification.id).Nodup
  uuid : ∀ n ∈ rows, IsUuid n.id
  created : ∀ n ∈ rows, n.createdAt ≤ MAX_DATE

/-! ## The cursor -/

/-- Position in the newest-first list, ties on createdAt are broken by id. -/
structure NotificationCursor where
  createdAt : Rat
  id : String
  deriving DecidableEq

/-- `Number(text)`, none where it is not finite. -/
def numberOf (other : Text → Option Rat) (text : Text) : Option Rat :=
  if text ≠ [] ∧ text.all Char.isDigit then
    let n := Nat.ofDigitChars 10 text 0
    if n < 2 ^ 53 then some (n : Rat)
    else if JsNumber.toDouble n < 2 ^ 1024 then some (JsNumber.toDouble n : Rat)
    else none
  else other text

/-- `Buffer.from(text)`. -/
def bytesOf (text : Text) : List UInt8 := text.flatMap String.utf8EncodeChar

/-- `buffer.toString()`. -/
def textOf (bytes : List UInt8) : Text := (Utf8.decode bytes).map Char.ofNat

/-- `encodeCursor`. -/
def encodeCursor (item : Notification) : Text :=
  Base64.encode (bytesOf ((JsNumber.text item.createdAt).toList ++ ':' :: item.id.toList))

/-- `decodeCursor`. -/
def decodeCursor (other : Text → Option Rat) (cursor : Text) :
    Except String NotificationCursor :=
  match JsText.splitChars ':' (textOf (Base64.decode cursor)) with
  | createdAt :: id :: _ =>
      match numberOf other createdAt with
      | some n => if id = [] then .error "Invalid cursor" else .ok ⟨n, String.ofList id⟩
      | none => .error "Invalid cursor"
  | _ => .error "Invalid cursor"

/-! ## Pages -/

/-- `ORDER BY createdAt DESC, id DESC`. -/
def newestFirst (a b : Notification) : Bool :=
  b.createdAt < a.createdAt || (a.createdAt = b.createdAt && b.id ≤ a.id)

/-- `createdAt < ? OR (createdAt = ? AND id < ?)`. -/
def isAfter (cursor : NotificationCursor) (n : Notification) : Bool :=
  (n.createdAt : Rat) < cursor.createdAt ||
    ((n.createdAt : Rat) = cursor.createdAt && n.id < cursor.id)

/-- The rows of the list, without a position. -/
def isListed (userId : String) (unreadOnly : Bool) (n : Notification) : Bool :=
  n.userId = userId && (!unreadOnly || n.readAt.isNone)

/-- `NotificationsRepository.page`. -/
def page (table : Table) (userId : String) (limit : Nat) (unreadOnly : Bool)
    (after : Option NotificationCursor) : List Notification :=
  ((table.rows.filter fun n => isListed userId unreadOnly n && after.all (isAfter · n)).mergeSort
    newestFirst).take limit

def unreadCount (table : Table) (userId : String) : Nat :=
  (table.rows.filter fun n => n.userId = userId && n.readAt.isNone).length

structure NotificationsPage where
  items : List Notification
  nextCursor : Option Text
  unreadCount : Nat

/-- `opts.cursor ? decodeCursor(opts.cursor) : undefined`. -/
def decodeGiven (other : Text → Option Rat) : Option Text → Except String (Option NotificationCursor)
  | none => .ok none
  | some [] => .ok none
  | some cursor => some <$> decodeCursor other cursor

/-- `NotificationsService.list`. -/
def list (other : Text → Option Rat) (table : Table) (userId : String) (limit : Nat)
    (unreadOnly : Bool) (cursor : Option Text) : Except String NotificationsPage := do
  let after ← decodeGiven other cursor
  let items := page table userId (limit + 1) unreadOnly after
  let hasMore := limit < items.length
  let shown := if hasMore then items.take limit else items
  return {
    items := shown
    nextCursor := if hasMore then shown.getLast?.map encodeCursor else none
    unreadCount := unreadCount table userId }

/-- The longest cursor that `NotificationsQueryDto` takes. -/
def MAX_CURSOR : Nat := 200

/-- Follow `nextCursor` until it is absent; none where a request is refused, or the fuel ran
    out. -/
def follow (other : Text → Option Rat) (table : Table) (userId : String) (limit : Nat)
    (unreadOnly : Bool) : Nat → Option Text → Option (List Notification)
  | 0, _ => none
  | fuel + 1, cursor =>
      if (cursor.getD []).length ≤ MAX_CURSOR then
        match list other table userId limit unreadOnly cursor with
        | .error _ => none
        | .ok shown =>
            match shown.nextCursor with
            | none => some shown.items
            | some next =>
                (follow other table userId limit unreadOnly fuel (some next)).map (shown.items ++ ·)
      else none

/-! ## The cursor of a row -/

theorem textOf_bytesOf {text : Text} (h : ∀ c ∈ text, c.toNat ≤ 0x7F) :
    textOf (bytesOf text) = text ∧ (bytesOf text).length = text.length := by
  have h_bytes : bytesOf text = text.map fun c => UInt8.ofNat c.toNat := by
    rw [bytesOf]
    induction text with
    | nil => rfl
    | cons c text ih =>
      have h_c := h c List.mem_cons_self
      have h_size : c.utf8Size = 1 := Char.utf8Size_eq_one_iff.mpr h_c
      rw [List.flatMap_cons, ih fun d h_d => h d (List.mem_cons_of_mem _ h_d),
        String.utf8EncodeChar_eq_singleton h_size]
      rfl
  have h_toNat : ∀ c ∈ text, (UInt8.ofNat c.toNat).toNat = c.toNat := fun c h_c => by
    have h_le := h c h_c
    rw [UInt8.toNat_ofNat']
    omega
  constructor
  · rw [textOf, Utf8.decode_ascii, h_bytes, List.map_map, List.map_map]
    · have h_id : ∀ c ∈ text, (Char.ofNat ∘ UInt8.toNat ∘ fun c => UInt8.ofNat c.toNat) c = c := by
        intro c h_c
        rw [Function.comp_apply, Function.comp_apply, h_toNat c h_c, Char.ofNat_toNat]
      exact (List.map_congr_left h_id).trans (List.map_id _)
    · intro b h_b
      rw [h_bytes] at h_b
      obtain ⟨c, h_c, rfl⟩ := List.mem_map.mp h_b
      rw [h_toNat c h_c]
      exact h c h_c
  · rw [h_bytes, List.length_map]

variable {other : Text → Option Rat} {table : Table} {userId : String} {limit : Nat}
  {unreadOnly : Bool} {n : Notification}

theorem uuidChar_ascii : "0123456789abcdef-".toList.all (fun c => c.toNat ≤ 0x7F && c != ':') := by
  decide +kernel

theorem IsUuid.ascii {id : String} (h : IsUuid id) :
    ∀ c ∈ id.toList, c.toNat ≤ 0x7F ∧ c ≠ ':' := by
  intro c h_c
  have h_char := List.all_eq_true.mp uuidChar_ascii c (List.contains_iff_mem.mp (h.chars c h_c))
  rw [Bool.and_eq_true, decide_eq_true_iff, bne_iff_ne] at h_char
  exact h_char

theorem digit_ascii {k : Nat} {c : Char} (h : c ∈ JsNumber.digits k) : c.toNat ≤ 0x7F ∧ c ≠ ':' := by
  have h_digit := JsNumber.isDigit_of_mem_digits h
  rw [Char.isDigit, Bool.and_eq_true, decide_eq_true_iff, decide_eq_true_iff] at h_digit
  have h_le : c.toNat ≤ '9'.toNat := h_digit.2
  refine ⟨h_le.trans (by decide), ?_⟩
  rintro rfl
  exact absurd h_le (by decide)

/-- What a cursor is made of. -/
def cursorText (n : Notification) : Text := JsNumber.digits n.createdAt ++ ':' :: n.id.toList

theorem encodeCursor_eq (h : n.createdAt ≤ MAX_DATE) :
    encodeCursor n = Base64.encode (bytesOf (cursorText n)) := by
  have h_lt : n.createdAt < 2 ^ 53 := Nat.lt_of_le_of_lt h (by decide)
  rw [encodeCursor, JsNumber.text_of_lt h_lt, cursorText]

theorem cursorText_ascii (h : IsUuid n.id) : ∀ c ∈ cursorText n, c.toNat ≤ 0x7F := by
  intro c h_c
  obtain h_c | h_c := List.mem_append.mp h_c
  · exact (digit_ascii h_c).1
  · obtain rfl | h_c := List.mem_cons.mp h_c
    · decide
    · exact (h.ascii c h_c).1

theorem numberOf_digits {k : Nat} (h : k < 2 ^ 53) : 
    numberOf other (JsNumber.digits k) = some (k : Rat) := by
  have h_all : (JsNumber.digits k).all Char.isDigit = true :=
    List.all_eq_true.mpr fun c h_c => JsNumber.isDigit_of_mem_digits h_c
  have h_value : Nat.ofDigitChars 10 (JsNumber.digits k) 0 = k :=
    Nat.ofDigitChars_toDigits (by decide) (by decide)
  rw [numberOf, if_pos ⟨Nat.toDigits_ne_nil, h_all⟩]
  simp only [h_value]
  exact if_pos h

/-- The position of a row. -/
def positionOf (n : Notification) : NotificationCursor := ⟨n.createdAt, n.id⟩

/-- A cursor that was made of a row is the position of the row. -/
theorem decodeCursor_encodeCursor (h_id : IsUuid n.id) (h_created : n.createdAt ≤ MAX_DATE) :
    decodeCursor other (encodeCursor n) = .ok (positionOf n) := by
  have h_ascii := cursorText_ascii h_id
  have h_digits : ':' ∉ JsNumber.digits n.createdAt := fun h => (digit_ascii h).2 rfl
  have h_chars : ':' ∉ n.id.toList := fun h => (h_id.ascii _ h).2 rfl
  have h_split : JsText.splitChars ':' (cursorText n) =
      [JsNumber.digits n.createdAt, n.id.toList] := by
    rw [cursorText, JsText.splitChars_head h_digits, JsText.splitChars_of_not_mem h_chars]
  have h_ne : n.id.toList ≠ [] := by
    intro h_nil
    have h_length := h_id.length
    rw [h_nil] at h_length
    cases h_length
  have h_lt : n.createdAt < 2 ^ 53 := Nat.lt_of_le_of_lt h_created (by decide)
  rw [decodeCursor, encodeCursor_eq h_created, Base64.decode_encode, (textOf_bytesOf h_ascii).1,
    h_split]
  simp only [numberOf_digits h_lt]
  rw [if_neg h_ne, String.ofList_toList]
  rfl

/-- The cursor of a row is short enough for the request. -/
theorem length_encodeCursor (h_id : IsUuid n.id) (h_created : n.createdAt ≤ MAX_DATE) :
    (encodeCursor n).length ≤ MAX_CURSOR := by
  have h_digits : (JsNumber.digits n.createdAt).length ≤ 16 :=
    (Nat.length_toDigits_le_iff (by decide) (by decide)).mpr
      (Nat.lt_of_le_of_lt h_created (by decide))
  have h_text : (cursorText n).length ≤ 53 := by
    have h_length := h_id.length
    rw [cursorText, List.length_append, List.length_cons]
    omega
  have h_encode := Base64.length_encode (bytesOf (cursorText n))
  rw [(textOf_bytesOf (cursorText_ascii h_id)).2] at h_encode
  rw [encodeCursor_eq h_created, MAX_CURSOR]
  omega

theorem encodeCursor_ne_nil (h_id : IsUuid n.id) (h_created : n.createdAt ≤ MAX_DATE) :
    encodeCursor n ≠ [] := by
  intro h_nil
  have h_bytes := Base64.decode_encode (bytesOf (cursorText n))
  rw [← encodeCursor_eq h_created, h_nil] at h_bytes
  have h_length := (textOf_bytesOf (cursorText_ascii h_id)).2
  rw [← h_bytes, cursorText, List.length_append, List.length_cons] at h_length
  exact absurd h_length (by simp [Base64.decode, Base64.octets])

theorem decodeGiven_encodeCursor (h_id : IsUuid n.id) (h_created : n.createdAt ≤ MAX_DATE) :
    decodeGiven other (some (encodeCursor n)) = .ok (some (positionOf n)) := by
  obtain ⟨c, cs, h_cursor⟩ := List.exists_cons_of_ne_nil (encodeCursor_ne_nil h_id h_created)
  have h_decode : decodeCursor other (encodeCursor n) = .ok (positionOf n) :=
    decodeCursor_encodeCursor h_id h_created
  rw [h_cursor] at h_decode ⊢
  rw [decodeGiven, h_decode]
  · rfl
  · exact fun h => by cases h

/-! ## The order -/

theorem newestFirst_iff {a b : Notification} :
    newestFirst a b = true ↔
      b.createdAt < a.createdAt ∨ a.createdAt = b.createdAt ∧ b.id ≤ a.id := by
  rw [newestFirst, Bool.or_eq_true, Bool.and_eq_true, decide_eq_true_iff, decide_eq_true_iff,
    decide_eq_true_iff]

theorem isAfter_iff {a : Notification} :
    isAfter (positionOf n) a = true ↔
      a.createdAt < n.createdAt ∨ a.createdAt = n.createdAt ∧ a.id < n.id := by
  rw [isAfter, Bool.or_eq_true, Bool.and_eq_true, decide_eq_true_iff, decide_eq_true_iff,
    decide_eq_true_iff]
  simp only [positionOf, Nat.cast_lt, Nat.cast_inj]

theorem newestFirst_trans (a b c : Notification) (h : newestFirst a b = true)
    (h' : newestFirst b c = true) : newestFirst a c = true := by
  rw [newestFirst_iff] at h h' ⊢
  obtain h | ⟨h, h_id⟩ := h
  · obtain h' | ⟨h', -⟩ := h'
    · exact .inl (h'.trans h)
    · exact .inl (h' ▸ h)
  · obtain h' | ⟨h', h_id'⟩ := h'
    · exact .inl (h ▸ h')
    · exact .inr ⟨h.trans h', h_id'.trans h_id⟩

theorem newestFirst_total (a b : Notification) : (newestFirst a b || newestFirst b a) = true := by
  rw [Bool.or_eq_true, newestFirst_iff, newestFirst_iff]
  obtain h | h | h := Nat.lt_trichotomy a.createdAt b.createdAt
  · exact .inr (.inl h)
  · exact (le_total b.id a.id).imp (fun h_id => .inr ⟨h, h_id⟩) fun h_id => .inr ⟨h.symm, h_id⟩
  · exact .inl (.inl h)

/-- With different ids one of two rows is behind the other. -/
theorem isAfter_of_newestFirst {a b : Notification} (h : newestFirst a b = true) (h_ne : a.id ≠ b.id) :
    isAfter (positionOf a) b = true := by
  rw [newestFirst_iff] at h
  rw [isAfter_iff]
  exact h.imp id fun h => ⟨h.1.symm, lt_of_le_of_ne h.2 (Ne.symm h_ne)⟩

theorem not_isAfter_of_newestFirst {a b : Notification} (h : newestFirst a b = true) :
    isAfter (positionOf b) a = false := by
  rw [newestFirst_iff] at h
  rw [Bool.eq_false_iff, Ne, isAfter_iff]
  rintro (h_lt | ⟨h_eq, h_id⟩)
  · obtain h | ⟨h, -⟩ := h <;> omega
  · obtain h | ⟨-, h⟩ := h
    · omega
    · exact absurd h_id (not_lt.mpr h)

/-! ## One page after another -/

/-- The whole list, as the query orders it. -/
def listed (table : Table) (userId : String) (unreadOnly : Bool) : List Notification :=
  (table.rows.filter (isListed userId unreadOnly)).mergeSort newestFirst

theorem listed_perm (table : Table) (userId : String) (unreadOnly : Bool) :
    (listed table userId unreadOnly).Perm (table.rows.filter (isListed userId unreadOnly)) :=
  List.mergeSort_perm _ _

theorem listed_pairwise (table : Table) (userId : String) (unreadOnly : Bool) :
    (listed table userId unreadOnly).Pairwise fun a b => newestFirst a b = true :=
  List.pairwise_mergeSort newestFirst_trans newestFirst_total _

theorem mem_rows_of_listed (h : n ∈ listed table userId unreadOnly) : n ∈ table.rows :=
  List.mem_of_mem_filter ((listed_perm table userId unreadOnly).mem_iff.mp h)

/-- Ids in the list differ, as in the table. -/
theorem listed_ids (table : Table) (userId : String) (unreadOnly : Bool) :
    ((listed table userId unreadOnly).map Notification.id).Nodup := by
  have h_filter : ((table.rows.filter (isListed userId unreadOnly)).map Notification.id).Nodup :=
    table.ids.sublist (List.filter_sublist.map _)
  exact (List.Perm.nodup_iff ((listed_perm table userId unreadOnly).map _)).mpr h_filter

/-- What a query from this position selects, whatever its limit, begins `rest`. -/
def StandsBefore (table : Table) (userId : String) (unreadOnly : Bool)
    (after : Option NotificationCursor) (rest : List Notification) : Prop :=
  ∀ k, page table userId k unreadOnly after = rest.take k

theorem standsBefore_start (table : Table) (userId : String) (unreadOnly : Bool) :
    StandsBefore table userId unreadOnly none (listed table userId unreadOnly) := by
  intro k
  have h_filter : (fun n => isListed userId unreadOnly n && Option.all (isAfter · n) none) =
      isListed userId unreadOnly := by
    funext n
    rw [Option.all_none, Bool.and_true]
  rw [page, listed, h_filter]

/-- Behind a row of the list comes the rest of the list. -/
theorem standsBefore_row {front back : List Notification}
    (h : listed table userId unreadOnly = front ++ n :: back) :
    StandsBefore table userId unreadOnly (some (positionOf n)) back := by
  intro k
  have h_sorted := listed_pairwise table userId unreadOnly
  have h_ids := listed_ids table userId unreadOnly
  rw [h, List.pairwise_append, List.pairwise_cons] at h_sorted
  rw [h, List.map_append, List.map_cons, List.nodup_append, List.nodup_cons] at h_ids
  obtain ⟨-, ⟨h_behind, h_back⟩, h_front⟩ := h_sorted
  -- Of the list the position selects what is behind the row.
  have h_select : (listed table userId unreadOnly).filter (isAfter (positionOf n)) = back := by
    have h_none : front.filter (isAfter (positionOf n)) = [] := List.filter_eq_nil_iff.mpr
      fun a h_a h_after => by
        rw [not_isAfter_of_newestFirst (h_front a h_a n List.mem_cons_self)] at h_after
        cases h_after
    have h_self : isAfter (positionOf n) n = false :=
      not_isAfter_of_newestFirst (newestFirst_iff.mpr (.inr ⟨rfl, le_refl _⟩))
    have h_all : back.filter (isAfter (positionOf n)) = back := List.filter_eq_self.mpr
      fun a h_a => isAfter_of_newestFirst (h_behind a h_a) fun h_eq =>
        h_ids.2.1.1 (h_eq ▸ List.mem_map_of_mem h_a)
    rw [h, List.filter_append, h_none, List.nil_append, List.filter_cons, h_self, h_all]
    rfl
  -- The query sorts the same rows, and there is one way to sort them.
  have h_perm : (table.rows.filter fun n' =>
      isListed userId unreadOnly n' && (some (positionOf n)).all (isAfter · n')).Perm back := by
    have h_filter : (table.rows.filter fun n' =>
        isListed userId unreadOnly n' && (some (positionOf n)).all (isAfter · n')) =
        (table.rows.filter (isListed userId unreadOnly)).filter (isAfter (positionOf n)) := by
      rw [List.filter_filter]
      refine List.filter_congr fun a _ => ?_
      rw [Option.all_some, Bool.and_comm]
    rw [h_filter, ← h_select]
    exact ((listed_perm table userId unreadOnly).filter _).symm
  have h_unique : ∀ a b : Notification, a ∈ back → b ∈ back → newestFirst a b = true →
      newestFirst b a = true → a = b := by
    intro a b h_a h_b h_ab h_ba
    by_contra h_ne
    have h_mem : ∀ x ∈ back, x ∈ table.rows := fun x h_x =>
      mem_rows_of_listed (h ▸ List.mem_append_right _ (List.mem_cons_of_mem _ h_x))
    have h_id : a.id ≠ b.id := fun h_eq =>
      h_ne (List.inj_on_of_nodup_map table.ids (h_mem a h_a) (h_mem b h_b) h_eq)
    have h_after := isAfter_of_newestFirst h_ab h_id
    rw [not_isAfter_of_newestFirst h_ba] at h_after
    cases h_after
  have h_sort := List.mergeSort_perm (table.rows.filter fun n' =>
    isListed userId unreadOnly n' && (some (positionOf n)).all (isAfter · n')) newestFirst
  rw [page]
  refine congrArg (List.take k) (List.Perm.eq_of_pairwise (fun a b h_a h_b => ?_)
    (List.pairwise_mergeSort newestFirst_trans newestFirst_total _) h_back (h_sort.trans h_perm))
  exact h_unique a b ((h_sort.trans h_perm).mem_iff.mp h_a) h_b

/-- A page from a position: as many of the rest as the limit says, and a cursor exactly where
    more are left. -/
theorem list_of_standsBefore {cursor : Option Text} {after : Option NotificationCursor}
    {rest : List Notification} (h_given : decodeGiven other cursor = .ok after)
    (h : StandsBefore table userId unreadOnly after rest) :
    list other table userId limit unreadOnly cursor = .ok {
      items := rest.take limit
      nextCursor :=
        if limit < rest.length then (rest.take limit).getLast?.map encodeCursor else none
      unreadCount := unreadCount table userId } := by
  rw [list, h_given]
  show Except.ok _ = _
  simp only [h (limit + 1), List.length_take, List.take_take]
  by_cases h_more : limit < rest.length
  · have h_min : limit < min (limit + 1) rest.length := by omega
    rw [if_pos h_min, if_pos h_min, if_pos h_more, Nat.min_eq_left (Nat.le_succ limit)]
  · have h_min : ¬ limit < min (limit + 1) rest.length := by omega
    rw [if_neg h_min, if_neg h_min, if_neg h_more, List.take_of_length_le (by omega),
      List.take_of_length_le (by omega)]

/-- From a position on, the rest of the list is visited. -/
theorem follow_of_standsBefore (h_limit : 1 ≤ limit) {fuel : Nat} {cursor : Option Text}
    {after : Option NotificationCursor} {front rest : List Notification}
    (h_list : listed table userId unreadOnly = front ++ rest)
    (h_given : decodeGiven other cursor = .ok after)
    (h_length : (cursor.getD []).length ≤ MAX_CURSOR)
    (h : StandsBefore table userId unreadOnly after rest) (h_fuel : rest.length < fuel) :
    follow other table userId limit unreadOnly fuel cursor = some rest := by
  induction fuel generalizing cursor after front rest with
  | zero => omega
  | succ fuel ih =>
    rw [follow, if_pos h_length, list_of_standsBefore h_given h]
    by_cases h_more : limit < rest.length
    · -- The last row of the page, and what is behind it.
      obtain ⟨init, n, h_page⟩ : ∃ init n, rest.take limit = init ++ [n] := by
        refine (List.eq_nil_or_concat' (rest.take limit)).resolve_left fun h_nil => ?_
        have h_take := congrArg List.length h_nil
        rw [List.length_take, List.length_nil] at h_take
        omega
      have h_rest : rest = init ++ n :: rest.drop limit := by
        rw [← List.singleton_append, ← List.append_assoc, ← h_page, List.take_append_drop]
      have h_split : listed table userId unreadOnly = (front ++ init) ++ n :: rest.drop limit := by
        rw [h_list, List.append_assoc, ← h_rest]
      have h_row : n ∈ table.rows :=
        mem_rows_of_listed (h_split ▸ List.mem_append_right _ List.mem_cons_self)
      have h_id := table.uuid n h_row
      have h_created := table.created n h_row
      have h_front : listed table userId unreadOnly = (front ++ init ++ [n]) ++ rest.drop limit := by
        rw [h_split, List.append_assoc _ [n], List.singleton_append]
      have h_next := ih h_front (decodeGiven_encodeCursor h_id h_created)
        (length_encodeCursor h_id h_created) (standsBefore_row h_split)
        (by rw [List.length_drop]; omega)
      rw [if_pos h_more, h_page, List.getLast?_concat, Option.map_some]
      simp only [h_next]
      rw [Option.map_some, List.append_assoc, List.singleton_append, ← h_rest]
    · rw [if_neg h_more]
      exact congrArg some (List.take_of_length_le (by omega))

/-- Following the cursors visits every notification of the list once, the newest first, and
    ends; one request for each of them and one more are enough. -/
theorem follow_complete (other : Text → Option Rat) (table : Table) (userId : String)
    (unreadOnly : Bool) (h_limit : 1 ≤ limit) :
    ∃ visited,
      (∀ fuel, (table.rows.filter (isListed userId unreadOnly)).length < fuel →
        follow other table userId limit unreadOnly fuel none = some visited) ∧
      visited.Perm (table.rows.filter (isListed userId unreadOnly)) ∧
      visited.Pairwise fun a b =>
        b.createdAt < a.createdAt ∨ a.createdAt = b.createdAt ∧ b.id < a.id := by
  have h_perm := listed_perm table userId unreadOnly
  refine ⟨listed table userId unreadOnly, fun fuel h_fuel => ?_, h_perm, ?_⟩
  · refine follow_of_standsBefore h_limit (List.nil_append _).symm rfl (by decide)
      (standsBefore_start table userId unreadOnly) ?_
    rw [h_perm.length_eq]
    exact h_fuel
  · have h_ids := List.pairwise_map.mp (listed_ids table userId unreadOnly)
    refine ((listed_pairwise table userId unreadOnly).and h_ids).imp fun h => ?_
    exact (isAfter_iff.mp (isAfter_of_newestFirst h.1 h.2)).imp id fun h => ⟨h.1.symm, h.2⟩

section Witness

def startedAt (id : String) (createdAt : Nat) : Notification where
  id := id
  userId := "ada"
  kind := "server.started"
  params := "\x7b\x7d"
  readAt := none
  createdAt := createdAt

def firstId : String := "11111111-0000-4000-8000-000000000000"
def secondId : String := "22222222-0000-4000-8000-000000000000"
def thirdId : String := "33333333-0000-4000-8000-000000000000"

theorem isUuid_of_all {id : String}
    (h : id.toList.length = 36 ∧ id.toList.all isUuidChar = true) : IsUuid id :=
  ⟨h.1, List.all_eq_true.mp h.2⟩

/-- Two of three in the same millisecond. -/
def sameMoment : Table where
  rows := [startedAt firstId 5, startedAt secondId 5, startedAt thirdId 4]
  ids := by decide +kernel
  uuid := fun n h_n => by
    simp only [List.mem_cons, List.not_mem_nil, or_false] at h_n
    obtain rfl | rfl | rfl := h_n <;> exact isUuid_of_all (by decide +kernel)
  created := fun n h_n => by
    simp only [List.mem_cons, List.not_mem_nil, or_false] at h_n
    obtain rfl | rfl | rfl := h_n <;> decide

/-- A page that ends between the two. -/
theorem follow_complete_sameMoment :
    ∃ visited,
      (∀ fuel, 3 < fuel → follow (fun _ => none) sameMoment "ada" 1 false fuel none = some visited) ∧
      visited.Perm sameMoment.rows ∧
      visited.Pairwise fun a b =>
        b.createdAt < a.createdAt ∨ a.createdAt = b.createdAt ∧ b.id < a.id := by
  have h_all : sameMoment.rows.filter (isListed "ada" false) = sameMoment.rows := by decide +kernel
  have h := follow_complete (fun _ => none) sameMoment "ada" false (Nat.le_refl 1)
  rw [h_all] at h
  exact h

end Witness

end Kubek.Notifications
