/-!
# `ForumModeration.Field`: what a condition looks at

A condition tests one field of a piece of forum content. Content is a thread, a
post or a comment, and not every field exists on each of them. A rule is scoped
to a target, and the target decides which fields the rule may test.

Fields and targets have a tag, the spelling in which they are stored. Tags are
distinct and are read back by `ofTag?`.
-/

set_option autoImplicit false

namespace ForumModeration

/-- What a rule is scoped to: all content or one kind of it. -/
inductive Target where
  | all
  | thread
  | post
  | comment
deriving DecidableEq, Repr

namespace Target

/-- The stored spelling of a target. -/
def tag : Target → String
  | all => "all"
  | thread => "thread"
  | post => "post"
  | comment => "comment"

/-- The target with the given tag. -/
def ofTag? : String → Option Target
  | "all" => some all
  | "thread" => some thread
  | "post" => some post
  | "comment" => some comment
  | _ => none

/-- What is said of a text that is no target's tag. -/
def unknownMessage (text : String) : String :=
  "unknown target type '" ++ text ++ "', expected 'all', 'thread', 'post' or 'comment'"

theorem ofTag?_tag (target : Target) : ofTag? target.tag = some target := by
  cases target <;> rfl

/-- A tag that is known is the target's. -/
theorem tag_of_ofTag? {text : String} {target : Target} (h : ofTag? text = some target) :
    target.tag = text := by
  unfold ofTag? at h
  split at h <;> cases h <;> rfl

end Target

/-- The attributes of forum content that a condition can test. -/
inductive Field where
  | title
  | text
  | level
  | userId
  | userName
  | nickName
  | portrait
  | isGood
  | isTop
  | replyNum
  | viewNum
  | agreeNum
  | floor
  | createTime
  | lastTime
deriving DecidableEq, Repr

namespace Field

/-- The stored spelling of a field. -/
def tag : Field → String
  | title => "title"
  | text => "text"
  | level => "level"
  | userId => "user_id"
  | userName => "user_name"
  | nickName => "nick_name"
  | portrait => "portrait"
  | isGood => "is_good"
  | isTop => "is_top"
  | replyNum => "reply_num"
  | viewNum => "view_num"
  | agreeNum => "agree_num"
  | floor => "floor"
  | createTime => "create_time"
  | lastTime => "last_time"

/-- The field with the given tag. -/
def ofTag? : String → Option Field
  | "title" => some title
  | "text" => some text
  | "level" => some level
  | "user_id" => some userId
  | "user_name" => some userName
  | "nick_name" => some nickName
  | "portrait" => some portrait
  | "is_good" => some isGood
  | "is_top" => some isTop
  | "reply_num" => some replyNum
  | "view_num" => some viewNum
  | "agree_num" => some agreeNum
  | "floor" => some floor
  | "create_time" => some createTime
  | "last_time" => some lastTime
  | _ => none

theorem ofTag?_tag (field : Field) : ofTag? field.tag = some field := by
  cases field <;> rfl

/-- A tag that is known is the field's. -/
theorem tag_of_ofTag? {text : String} {field : Field} (h : ofTag? text = some field) :
    field.tag = text := by
  unfold ofTag? at h
  split at h <;> cases h <;> rfl

/-- Fields whose values are instants. A quoted date compared with such a field
is read as an instant. -/
def isTime : Field → Bool
  | createTime | lastTime => true
  | _ => false

/-- The kinds of content that carry the field. -/
def targets : Field → List Target
  | title | isGood | isTop | viewNum | lastTime => [.thread]
  | floor => [.post]
  | replyNum => [.thread, .post]
  | text | level | userId | userName | nickName | portrait | agreeNum | createTime =>
    [.thread, .post, .comment]

end Field

/-- Whether a rule scoped to `target` may test `field`. A rule for all content
may test every field. -/
def Target.allows (target : Target) (field : Field) : Bool :=
  target = .all || field.targets.contains target

end ForumModeration
