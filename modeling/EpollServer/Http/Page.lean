/-!
# The page that answers a first request

The literal that the task of `tcp_worker_pool::submit` builds, piece by piece.
-/
namespace EpollServer.Http

/-- `body`. -/
def body : List String := [
  "<!DOCTYPE html>\n",
  "<!--STATUS OK-->\n",
  "<html>\n",
  "<head>\n",
  "    <meta http-equiv=content-type content=text/html;charset=utf-8>\n",
  "    <meta http-equiv=X-UA-Compatible content=IE=Edge>\n",
  "    <meta content=always name=referrer>\n",
  "    <link rel=stylesheet type=text/css href=http://s1.bdstatic.com/r/www/cache/bdorz",
  "/baidu.min.css>\n",
  "    <title>ç\u0099¾åº¦ä¸\u0080ä¸\u008Bï¼\u008Cä½ å°±ç\u009F¥é\u0081\u0093</title></h",
  "ead>\n",
  "<body link=#0000cc>\n",
  "<div id=wrapper>\n",
  "    <div id=head>\n",
  "        <div class=head_wrapper>\n",
  "            <div class=s_form>\n",
  "                <div class=s_form_wrapper>\n",
  "                    <div id=lg><img hidefocus=true src=//www.baidu.com/img/bd_logo1.",
  "png width=270 height=129></div>\n",
  "                    <form id=form name=f action=//www.baidu.com/s class=fm><input ty",
  "pe=hidden name=bdorz_come value=1>\n",
  "                        <input type=hidden name=ie value=utf-8> <input type=hidden n",
  "ame=f value=8> <input type=hidden\n",
  "                                                                                    ",
  "                      name=rsv_bp\n",
  "                                                                                    ",
  "                      value=1>\n",
  "                        <input type=hidden name=rsv_idx value=1> <input type=hidden ",
  "name=tn value=baidu><span\n",
  "                                class=\"bg s_ipt_wr\"><input id=kw name=wd class=s_i",
  "pt value maxlength=255\n",
  "                                                           autocomplete=off autofocu",
  "s></span><span\n",
  "                                class=\"bg s_btn_wr\"><input type=submit id=su value",
  "=ç\u0099¾åº¦ä¸\u0080ä¸\u008B class=\"bg s_btn\"></span>\n",
  "                    </form>\n",
  "                </div>\n",
  "            </div>\n",
  "            <div id=u1><a href=http://news.baidu.com name=tj_trnews class=mnav>æ",
  "\u0096°é\u0097»</a> <a href=http://www.hao123.com\n",
  "                                                                                    ",
  "         name=tj_trhao123\n",
  "                                                                                    ",
  "         class=mnav>hao123</a> <a\n",
  "                    href=http://map.baidu.com name=tj_trmap class=mnav>å\u009C°å",
  "\u009B¾</a> <a href=http://v.baidu.com\n",
  "                                                                                    ",
  " name=tj_trvideo\n",
  "                                                                                    ",
  " class=mnav>è§\u0086é¢\u0091</a> <a\n",
  "                    href=http://tieba.baidu.com name=tj_trtieba class=mnav>è´´å",
  "\u0090§</a>\n",
  "                <noscript><a\n",
  "                        href=http://www.baidu.com/bdorz/login.gif?login&amp;tpl=mn&a",
  "mp;u=http%3A%2F%2Fwww.baidu.com%2f%3fbdorz_come%3d1\n",
  "                        name=tj_login class=lb>ç\u0099»å½\u0095</a></noscript>\n",
  "                <script>document.write('<a href=\"http://www.baidu.com/bdorz/login.g",
  "if?login&tpl=mn&u=' + encodeURIComponent(window.location.href + (window.location.sea",
  "rch === \"\" ? \"?\" : \"&\") + \"bdorz_come=1\") + '\" name=\"tj_login\" class=\"lb",
  "\">ç\u0099»å½\u0095</a>');</script>\n",
  "                <a href=//www.baidu.com/more/ name=tj_briicon class=bri style=\"disp",
  "lay: block;\">æ\u009B´å¤\u009Aäº§å\u0093\u0081</a></div>\n",
  "        </div>\n",
  "    </div>\n",
  "    <div id=ftCon>\n",
  "        <div id=ftConw><p id=lh><a href=http://home.baidu.com>å\u0085³äº\u008Eç",
  "\u0099¾åº¦</a> <a href=http://ir.baidu.com>About\n",
  "            Baidu</a></p>\n",
  "            <p id=cp>&copy;2017&nbsp;Baidu&nbsp;<a href=http://www.baidu.com/duty/>ä",
  "½¿ç\u0094¨ç\u0099¾åº¦å\u0089\u008Då¿\u0085è¯»</a>&nbsp; <a\n",
  "                    href=http://jianyi.baidu.com/ class=cp-feedback>æ\u0084\u008Fè§",
  "\u0081å\u008F\u008Dé¦\u0088</a>&nbsp;äº¬ICPè¯\u0081030173å\u008F·&nbsp; <img\n",
  "                    src=//www.baidu.com/img/gs.gif></p></div>\n",
  "    </div>\n",
  "</div>\n",
  "</body>\n",
  "</html>"]

end EpollServer.Http
