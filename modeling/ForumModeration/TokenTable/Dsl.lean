import ForumModeration.TokenTable.Basic

/-!
# `ForumModeration.TokenTable.Dsl`: the compact language

The compact language spells symbols with English words and operator signs. Its
tokens are written with spaces between them.
-/

set_option autoImplicit false

namespace ForumModeration.TokenTable

/-- The tokens of the compact language. -/
def dslEntries : List (Symbol × List String) :=
  [(.field .title, ["title"]),
   (.field .text, ["text", "content"]),
   (.field .level, ["author.level", "level"]),
   (.field .userId, ["author.user_id", "user_id"]),
   (.field .userName, ["author.user_name", "user_name"]),
   (.field .nickName, ["author.nick_name", "nick_name"]),
   (.field .portrait, ["author.portrait", "portrait"]),
   (.field .isGood, ["is_good"]),
   (.field .isTop, ["is_top"]),
   (.field .replyNum, ["reply_num"]),
   (.field .viewNum, ["view_num"]),
   (.field .agreeNum, ["agree_num"]),
   (.field .floor, ["floor"]),
   (.field .createTime, ["create_time"]),
   (.field .lastTime, ["last_time"]),
   (.operator .contains, ["contains"]),
   (.operator .regex, ["regex", "matches", "~="]),
   (.operator .eq, ["==", "=", "eq"]),
   (.operator .gt, [">", "gt"]),
   (.operator .lt, ["<", "lt"]),
   (.operator .gte, [">=", "gte"]),
   (.operator .lte, ["<=", "lte"]),
   (.operator .among, ["in"]),
   (.connective .and, ["AND", "&&"]),
   (.connective .or, ["OR", "||"]),
   (.connective .not, ["NOT", "!"]),
   (.connective .xor, ["XOR"]),
   (.connective .xnor, ["XNOR"]),
   (.connective .nand, ["NAND"]),
   (.connective .nor, ["NOR"]),
   (.action .delete, ["delete"]),
   (.action .ban, ["ban"]),
   (.action .notify, ["notify"]),
   (.truth true, ["true"]),
   (.truth false, ["false"]),
   (.now, ["NOW"]),
   (.unit .day, ["d"]),
   (.unit .hour, ["h"]),
   (.unit .minute, ["m"]),
   (.unit .second, ["s"]),
   (.ago, ["ago"]),
   (.actionPrefix, ["DO"]),
   (.punctuation .leftParen, ["("]),
   (.punctuation .rightParen, [")"]),
   (.punctuation .leftBracket, ["["]),
   (.punctuation .rightBracket, ["]"]),
   (.punctuation .comma, [","]),
   (.punctuation .colon, [":"]),
   (.punctuation .assign, ["="])]

/-- The table of the compact language. -/
def dsl : TokenTable := ⟨.dsl, true, dslEntries⟩

end ForumModeration.TokenTable
