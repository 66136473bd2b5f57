import ForumModeration.TokenTable.Basic

/-!
# `ForumModeration.TokenTable.Cnl`: the Chinese language

The Chinese language spells symbols with Chinese words and full-width signs. It
also reads the ASCII signs and some English words. Its tokens are written back
to back.
-/

set_option autoImplicit false

namespace ForumModeration.TokenTable

/-- The tokens of the Chinese language. -/
def cnlEntries : List (Symbol × List String) :=
  [(.field .title, ["标题", "帖子标题", "title"]),
   (.field .text, ["内容", "正文", "文本", "text"]),
   (.field .level, ["等级", "用户等级", "level"]),
   (.field .userId, ["用户ID", "用户id", "user_id"]),
   (.field .userName, ["用户名", "user_name"]),
   (.field .nickName, ["昵称", "nick_name"]),
   (.field .portrait, ["头像", "portrait"]),
   (.field .isGood, ["加精", "精华帖", "精华贴"]),
   (.field .isTop, ["置顶"]),
   (.field .replyNum, ["回复数", "回复量"]),
   (.field .viewNum, ["浏览量", "浏览数", "阅读量"]),
   (.field .agreeNum, ["点赞数", "赞数"]),
   (.field .floor, ["楼层"]),
   (.field .createTime, ["发贴时间", "发帖时间", "创建时间"]),
   (.field .lastTime, ["最后回复时间", "更新时间"]),
   (.operator .contains, ["包含", "含有", "contains"]),
   (.operator .regex, ["正则匹配", "匹配正则", "匹配"]),
   (.operator .eq, ["等于", "为", "==", "="]),
   (.operator .gt, ["大于", "高于", "超过", ">"]),
   (.operator .lt, ["小于", "低于", "<"]),
   (.operator .gte, ["大于等于", "不少于", "不低于", ">="]),
   (.operator .lte, ["小于等于", "不超过", "不高于", "<="]),
   (.operator .among, ["属于", "在列表", "in"]),
   (.connective .and, ["并且", "且", "和", "与", "AND"]),
   (.connective .or, ["或者", "或", "OR"]),
   (.connective .not, ["非", "不满足", "NOT"]),
   (.connective .xor, ["异或", "XOR"]),
   (.connective .xnor, ["同或", "XNOR"]),
   (.connective .nand, ["与非", "NAND"]),
   (.connective .nor, ["或非", "NOR"]),
   (.action .delete, ["删除", "删帖", "delete"]),
   (.action .ban, ["封禁", "禁言", "ban"]),
   (.action .notify, ["通知", "提醒", "notify"]),
   (.truth true, ["真", "是", "对", "true"]),
   (.truth false, ["假", "否", "错", "false"]),
   (.now, ["现在", "当前时间", "NOW"]),
   (.unit .day, ["天"]),
   (.unit .hour, ["小时", "个小时"]),
   (.unit .minute, ["分钟"]),
   (.unit .second, ["秒", "秒钟"]),
   (.ago, ["前", "以前", "之前"]),
   (.actionPrefix, ["执行", "DO"]),
   (.punctuation .leftParen, ["（", "("]),
   (.punctuation .rightParen, ["）", ")"]),
   (.punctuation .leftBracket, ["【", "[", "［"]),
   (.punctuation .rightBracket, ["】", "]", "］"]),
   (.punctuation .comma, ["，", ",", "、"]),
   (.punctuation .colon, ["：", ":"]),
   (.punctuation .assign, ["=", "＝"])]

/-- The table of the Chinese language. -/
def cnl : TokenTable := ⟨.cnl, false, cnlEntries⟩

end ForumModeration.TokenTable
